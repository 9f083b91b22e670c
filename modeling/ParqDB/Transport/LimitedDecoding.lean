import Mathlib.Algebra.Order.Ring.Int
import ParqDB.Transport.FrameLimits

/-!
# Decoding under a limit

The rounds of `decode_ipc_stream` on a valid stream, for any limit and any chunks: they settle as
the `Meter` says, and the limit is as exact as that is.

**Results.**  `frame_limit_exact_iff`: the limit is exact, whatever the chunks, but for streams of
which only the first batch is too large, and by no more than what was not counted of it, and for
streams in which the byte after a message without a body is missing or is one too many.
-/

namespace ParqDB.Transport

open Foundations

variable {Schema Batch Writer Decoder : Type} {arrow : ArrowIpc Schema Batch Writer Decoder}
  {schema : Schema} {framed : FramedStream} {rejects : Prop} {read : Bytes} {yielded : List Batch}
  {source : List Bytes} {self : PyIpcDecoder Decoder}

/-- The native decoder has read this start of the stream, and its counter is metered. -/
structure Metered (arrow : ArrowIpc Schema Batch Writer Decoder) (framed : FramedStream)
    (rejects : Prop) (read : Bytes) (yielded : List Batch) (source : List Bytes)
    (receiver : PyIpcDecoder Decoder) : Prop where
  reads : arrow.Reads framed.bytes receiver.decoder read yielded
  onStream : read ++ receiver.pending.getD [] <+: framed.bytes
  pending_ne : receiver.pending ≠ some []
  emitted : (arrow.schema? receiver.decoder).isSome = receiver.schemaEmitted
  meter : Meter framed receiver.maxFrameBytes rejects read.length yielded.length
    receiver.bytesSinceBoundary (receiver.pending.toList ++ source)
  unfinished : receiver.finished = false

/-- The bytes that are left after a window, as the decoder keeps them. -/
theorem meter_left {maxFrameBytes position index counter : ℕ} {left : Bytes}
    (hmeter : Meter framed maxFrameBytes rejects position index counter (left :: source)) :
    Meter framed maxFrameBytes rejects position index counter
      ((if left = [] then none else some left).toList ++ source) := by
  by_cases hempty : left = []
  · subst hempty
    exact hmeter.skip
  · rw [if_neg hempty]
    exact hmeter

/-- One window: what arrow's decoder uses of it, and the counter after it.  The batch of a message
without a body is yielded at the next byte, of which nothing is used. -/
theorem Metered.window (hdecodes : arrow.Decodes schema framed) {input : Bytes}
    (hmetered : Metered arrow framed rejects read yielded source self)
    (hpending : self.pending = some input)
    (hroom : ¬ self.maxFrameBytes ≤ self.bytesSinceBoundary) {take : ℕ}
    (htake : min (self.maxFrameBytes - self.bytesSinceBoundary) input.length = take) :
    ∃ decoder batch used, Window arrow schema self input decoder batch used ∧
      Metered arrow framed rejects (read ++ used) (yielded ++ batch.toList) source
        (self.advance arrow decoder batch input used.length) := by
  have hinput : input ≠ [] := fun hempty => hmetered.pending_ne (hempty ▸ hpending)
  have hpositive := List.length_pos_of_ne_nil hinput
  have honStream := hmetered.onStream
  rw [hpending, Option.getD_some] at honStream
  have htakeLength : (input.take take).length = take := by
    rw [List.length_take]
    omega
  have hwindow : input.take take ≠ [] := List.ne_nil_of_length_pos (by omega)
  have hprefix : read ++ input.take take <+: framed.bytes :=
    ((List.prefix_append_right_inj read).mpr (List.take_prefix _ _)).trans honStream
  obtain ⟨decoder, batch, used, left, hdecode, hused, hcases⟩ :=
    hdecodes.decodes hmetered.reads hwindow hprefix
  have hreads := ArrowIpc.Reads.decode hmetered.reads hwindow hprefix hdecode hused
  have hlengths : used.length + left.length = take := by
    rw [← List.length_append, hused, htakeLength]
  have hstart : input.take used.length = used := by
    have htaken : (input.take take).take used.length = used := by
      rw [← hused, List.take_left]
    rw [List.take_take, Nat.min_eq_left (by omega)] at htaken
    exact htaken
  have hrest : used ++ input.drop used.length = input := by
    conv_lhs => rw [← hstart]
    rw [List.length_take, Nat.min_eq_left (by omega), List.take_append_drop]
  have hmeter := hmetered.meter
  rw [hpending] at hmeter
  -- the schema is announced by the window that has the byte after its message
  have hannounced : ((arrow.schema? self.decoder).isNone && (arrow.schema? decoder).isSome) = true ↔
      read.length ≤ framed.head ∧ framed.head < read.length + used.length := by
    rw [hdecodes.schema_eq hmetered.reads, hdecodes.schema_eq hreads, List.length_append]
    by_cases hbefore : framed.head < read.length
    · rw [if_pos hbefore]
      refine iff_of_false (by simp) ?_
      rintro ⟨hle, -⟩
      omega
    · by_cases hafter : framed.head < read.length + used.length
      · simp [hbefore, hafter]
        omega
      · simp [hbefore, hafter]
  -- what the counter is afterwards
  have hcounted : (batch = none → used ≠ []) ∧
      Meter framed self.maxFrameBytes rejects (read ++ used).length
        (yielded ++ batch.toList).length
        (self.advance arrow decoder batch input used.length).bytesSinceBoundary
        (input.drop used.length :: source) := by
    rw [List.length_append, List.length_append]
    unfold PyIpcDecoder.advance
    dsimp only
    rcases hcases with ⟨due, hdue, hle, hbatch, hstop⟩ | ⟨hnone, rfl, rfl⟩
    · obtain ⟨value, rfl⟩ := Option.isSome_iff_exists.mp hbatch
      refine ⟨(fun hnone => by cases hnone), ?_⟩
      rw [Option.isSome_some, Bool.or_true, if_pos rfl, hstop]
      exact Meter.batch hmeter (by omega) hdue (by rw [htakeLength] at hle; omega) _
    · have hall : used.length = take := hlengths
      rw [htakeLength] at hnone
      refine ⟨fun _ => List.ne_nil_of_length_pos (by omega), ?_⟩
      have hmetered' := Meter.window hmeter (by omega) htake.symm hnone
      rw [Option.isSome_none, Bool.or_false, hall]
      rw [hall] at hannounced
      by_cases hcrosses : read.length ≤ framed.head ∧ framed.head < read.length + take
      · rw [if_pos hcrosses] at hmetered'
        rw [if_pos (hannounced.mpr hcrosses)]
        exact hmetered'
      · rw [if_neg hcrosses] at hmetered'
        rw [if_neg fun hboth => hcrosses (hannounced.mp hboth)]
        exact hmetered'
  refine ⟨decoder, batch, used, ⟨hroom, fun other hother => ⟨left, ?_, by omega⟩, hcounted.1, hrest,
    fun found hfound => ?_⟩, hreads, ?_, ?_, ?_, meter_left hcounted.2, hmetered.unfinished⟩
  · rw [← hother, htake]
    exact hdecode
  · rw [hdecodes.schema_eq hreads] at hfound
    split at hfound
    · exact (Option.some.inj hfound).symm
    · cases hfound
  · rw [pending_advance, List.append_assoc, hrest]
    exact honStream
  · unfold PyIpcDecoder.advance
    by_cases hempty : input.drop used.length = []
    · simp [hempty]
    · simp [hempty]
  · have hbefore := hmetered.emitted
    have hmonotone : (arrow.schema? self.decoder).isSome = true →
        (arrow.schema? decoder).isSome = true := by
      rw [hdecodes.schema_eq hmetered.reads, hdecodes.schema_eq hreads, List.length_append]
      by_cases hread : framed.head < read.length
      · simp [Nat.lt_add_right _ hread]
      · simp [hread]
    unfold PyIpcDecoder.advance
    dsimp only
    rw [← hbefore]
    cases hsome : arrow.schema? self.decoder with
    | none => simp
    | some found =>
        rw [hsome] at hmonotone
        simp [hmonotone]

/-- Calls of the native decoder keep the counter metered. -/
theorem steady_metered [DecidableEq Schema] (hdecodes : arrow.Decodes schema framed) :
    Steady arrow schema framed.bytes framed.frames.length rejects (fun _ => ¬ rejects)
      (fun read yielded source self => Metered arrow framed rejects read yielded source self) where
  pending_ne hmetered := hmetered.pending_ne
  unfinished hmetered := hmetered.unfinished
  yielded_le hmetered := hmetered.meter.index_le
  skip := by
    intro read yielded source self hmetered hnone
    have hmeter := hmetered.meter
    rw [hnone] at hmeter
    refine ⟨hmetered.reads, hmetered.onStream, hmetered.pending_ne, hmetered.emitted, ?_,
      hmetered.unfinished⟩
    rw [hnone]
    exact hmeter.skip
  take := by
    intro read yielded chunk source self hmetered hnone hchunk hprefix
    have hmeter := hmetered.meter
    rw [hnone] at hmeter
    exact ⟨hmetered.reads, hprefix, fun hsome => hchunk (Option.some.inj hsome), hmetered.emitted,
      hmeter, hmetered.unfinished⟩
  window := by
    intro read yielded source self input hmetered hpending
    by_cases hfull : self.maxFrameBytes ≤ self.bytesSinceBoundary
    · -- nothing remains of the limit, and there is input
      have hmeter := hmetered.meter
      have honStream := hmetered.onStream.length_le
      rw [hpending] at hmeter
      rw [hpending, Option.getD_some, List.length_append] at honStream
      have hpositive : 0 < input.length :=
        List.length_pos_of_ne_nil fun hempty => hmetered.pending_ne (hempty ▸ hpending)
      exact .inl ⟨hfull, Meter.full hmeter hfull (by omega)⟩
    · exact .inr (hmetered.window hdecodes hpending hfull rfl)
  finish := by
    intro yielded self hmetered hnone
    have hreads := hmetered.reads
    by_cases hends : framed.Ends
    · right
      have hhead := head_lt_length hends
      refine ⟨?_, ?_, (hdecodes.finishes hreads).1 hends⟩
      · rcases hmetered.meter with ⟨hbefore, -⟩ | ⟨-, -, -, hlater, uncounted, -, hrejects⟩
        · omega
        · -- no batch is due after the last byte
          have hnoframe : framed.frames[yielded.length]? = none := by
            cases hframe : framed.frames[yielded.length]? with
            | none => rfl
            | some frame =>
                have hdue := due_of_frame hframe
                have hle := due_le_length hends hdue
                have hlt := hlater _ hdue
                omega
          rw [hrejects, List.drop_eq_nil_of_le (List.getElem?_eq_none_iff.mp hnoframe), Exceeds,
            or_false, not_not]
          exact hends
      · rw [← hmetered.emitted, hdecodes.schema_eq hreads, if_pos hhead]
        rfl
    · refine .inl ⟨?_, (hdecodes.finishes hreads).2 hends⟩
      rcases hmetered.meter with ⟨-, -, -, hrejects⟩ | ⟨-, -, -, -, uncounted, -, hrejects⟩
      · exact hrejects.mpr (.inl hends)
      · exact hrejects.mpr (.inl hends)

/-! ## From the first chunk -/

variable [DecidableEq Schema] {maxFrameBytes : ℕ} {chunks others : List Bytes}

/-- With enough fuel the call returns a schema and batches. -/
def Accepts (arrow : ArrowIpc Schema Batch Writer Decoder) (maxFrameBytes : ℕ)
    (chunks : List Bytes) : Prop :=
  ∃ least result, ∀ fuel ≥ least, decodeIpcStream arrow chunks maxFrameBytes fuel = .ok result

/-- With enough fuel the call raises. -/
def Rejects (arrow : ArrowIpc Schema Batch Writer Decoder) (maxFrameBytes : ℕ)
    (chunks : List Bytes) : Prop :=
  ∃ least message, ∀ fuel ≥ least,
    decodeIpcStream arrow chunks maxFrameBytes fuel = .error (.raised message)

theorem not_accepts_of_rejects (hrejects : Rejects arrow maxFrameBytes chunks) :
    ¬ Accepts arrow maxFrameBytes chunks := by
  rintro ⟨other, result, haccepts⟩
  obtain ⟨least, message, hrejects⟩ := hrejects
  have hsame := (haccepts (max least other) (Nat.le_max_right _ _)).symm.trans
    (hrejects (max least other) (Nat.le_max_left _ _))
  cases hsame

/-- What the decoder rejects. -/
def FramedStream.Rejected (framed : FramedStream) (maxFrameBytes : ℕ) (chunks : List Bytes) :
    Prop :=
  ¬ framed.Ends ∨ maxFrameBytes ≤ framed.head ∨
    Exceeds maxFrameBytes (framed.windowEnd maxFrameBytes chunks - framed.head) framed.frames

/-- The decoder rejects a stream if its last message is not handled or a frame is too large as it is
counted, and otherwise accepts it. -/
theorem decode_spec (hdecodes : arrow.Decodes schema framed) (hpositive : 0 < maxFrameBytes)
    (hchunks : chunks.flatten = framed.bytes) :
    (framed.Rejected maxFrameBytes chunks ∧ Rejects arrow maxFrameBytes chunks) ∨
      (¬ framed.Rejected maxFrameBytes chunks ∧ Accepts arrow maxFrameBytes chunks) := by
  have hstart : Metered arrow framed (framed.Rejected maxFrameBytes chunks) [] [] chunks
      (startOf arrow maxFrameBytes chunks).decoder := by
    refine ⟨ArrowIpc.Reads.new, List.nil_prefix, (fun hnone => by cases hnone), ?_, ?_, rfl⟩
    · show (arrow.schema? arrow.newDecoder).isSome = false
      have hbefore : ¬ framed.head < ([] : Bytes).length := Nat.not_lt_zero _
      rw [hdecodes.schema_eq ArrowIpc.Reads.new, if_neg hbefore]
      rfl
    · refine .inl ⟨Nat.zero_le _, rfl, rfl, ?_⟩
      rw [List.length_nil, Nat.zero_add, Nat.sub_zero]
      exact Iff.rfl
  have hsteady : Steady arrow schema framed.bytes framed.frames.length
      (framed.Rejected maxFrameBytes chunks) _ _ := steady_metered hdecodes
  rw [← hchunks] at hsteady
  rcases hsteady.decode hpositive hstart with hrejected | ⟨batches, hnot, least, hdecode⟩
  · exact .inl hrejected
  · exact .inr ⟨hnot, least, _, hdecode⟩

theorem rejects_iff (hdecodes : arrow.Decodes schema framed) (hpositive : 0 < maxFrameBytes)
    (hchunks : chunks.flatten = framed.bytes) :
    Rejects arrow maxFrameBytes chunks ↔ framed.Rejected maxFrameBytes chunks := by
  rcases decode_spec hdecodes hpositive hchunks with ⟨hrejected, hrejects⟩ | ⟨hnot, haccepts⟩
  · exact iff_of_true hrejects hrejected
  · exact iff_of_false (fun hrejects => not_accepts_of_rejects hrejects haccepts) hnot

theorem accepts_iff (hdecodes : arrow.Decodes schema framed) (hpositive : 0 < maxFrameBytes)
    (hchunks : chunks.flatten = framed.bytes) :
    Accepts arrow maxFrameBytes chunks ↔ ¬ framed.Rejected maxFrameBytes chunks := by
  rcases decode_spec hdecodes hpositive hchunks with ⟨hrejected, hrejects⟩ | ⟨hnot, haccepts⟩
  · exact iff_of_false (not_accepts_of_rejects hrejects) (not_not.mpr hrejected)
  · exact iff_of_true haccepts hnot

/-! ## When the limit is exact -/

theorem Frame.length_le_size (frame : Frame) : frame.bytes.length ≤ frame.size :=
  Nat.le_add_right _ _

/-- A stream with too large a frame gets through. -/
theorem undercounted_iff (maxFrameBytes : ℕ) (chunks : List Bytes) :
    framed.TooLarge maxFrameBytes ∧ ¬ framed.Rejected maxFrameBytes chunks ↔
      framed.Undercounted maxFrameBytes chunks := by
  unfold FramedStream.TooLarge FramedStream.Rejected FramedStream.Undercounted
  constructor
  · rintro ⟨hlarge, hnot⟩
    rw [not_or, not_or, not_not] at hnot
    obtain ⟨hends, hhead, hexceeds⟩ := hnot
    obtain ⟨frame, hframe, hlarge⟩ := hlarge.resolve_left fun hlt => hhead (Nat.le_of_lt hlt)
    refine ⟨hends, Nat.lt_of_not_le hhead, ?_⟩
    cases hframes : framed.frames with
    | nil =>
        rw [hframes] at hframe
        exact absurd hframe List.not_mem_nil
    | cons first frames =>
        rw [hframes, Exceeds, not_or] at hexceeds
        have hsmall : ∀ later ∈ frames, later.size ≤ maxFrameBytes :=
          fun later hlater => Nat.not_lt.mp fun hlt => hexceeds.2 ⟨later, hlater, hlt⟩
        refine ⟨first, frames, rfl, ?_, by omega, hsmall⟩
        -- the frame that is too large is the first one
        rw [hframes] at hframe
        rcases List.mem_cons.mp hframe with rfl | hlater
        · exact hlarge
        · have hsize := hsmall frame hlater
          have hlength := frame.length_le_size
          omega
  · rintro ⟨hends, hhead, first, frames, hframes, hlarge, hfirst, hsmall⟩
    rw [hframes, Exceeds]
    refine ⟨.inr ⟨first, List.mem_cons_self, hlarge⟩, ?_⟩
    rintro (hnot | hle | hlt | ⟨later, hlater, hlt⟩)
    · exact hnot hends
    · omega
    · omega
    · exact Nat.not_lt.mpr (hsmall later hlater) hlt

/-- A stream without too large a frame is rejected. -/
theorem overcounted_iff (maxFrameBytes : ℕ) (hchunks : chunks.flatten = framed.bytes) :
    ¬ framed.TooLarge maxFrameBytes ∧ framed.Rejected maxFrameBytes chunks ↔
      framed.Overcounted maxFrameBytes := by
  unfold FramedStream.Rejected FramedStream.Overcounted
  refine and_congr_right fun hsmall => ?_
  have hhead : framed.head ≤ maxFrameBytes := Nat.not_lt.mp fun hlt => hsmall (.inl hlt)
  have hframe : ∀ frame ∈ framed.frames, frame.bytes.length ≤ maxFrameBytes :=
    fun frame hframe => Nat.not_lt.mp fun hlt => hsmall (.inr ⟨frame, hframe, hlt⟩)
  by_cases hends : framed.Ends
  · have hwindow : maxFrameBytes = framed.head ∨
        framed.head < framed.windowEnd maxFrameBytes chunks := by
      have hlength := head_lt_length hends
      rw [← hchunks] at hlength
      have hend : framed.head + 1 ≤ chunkEnd chunks (framed.head + 1) := le_chunkEnd hlength
      unfold FramedStream.windowEnd
      omega
    refine or_congr_right ?_
    by_cases hequal : framed.head = maxFrameBytes
    · exact ⟨fun _ => .inl hequal, fun _ => .inl (Nat.le_of_eq hequal.symm)⟩
    · rw [or_iff_right (by omega), or_iff_right hequal]
      cases hframes : framed.frames with
      | nil => simp [Exceeds]
      | cons first frames =>
          rw [hframes] at hframe
          have hfirst := hframe first List.mem_cons_self
          have hnotFirst : ¬ maxFrameBytes <
              first.size - (framed.windowEnd maxFrameBytes chunks - framed.head) := by
            have hone : first.size ≤ first.bytes.length + 1 := by
              unfold Frame.size
              split <;> omega
            omega
          rw [Exceeds, or_iff_right hnotFirst, List.tail_cons]
          refine exists_congr fun later => and_congr_right fun hlater => ?_
          have hle := hframe later (List.mem_cons_of_mem _ hlater)
          unfold Frame.size
          cases later.hasBody with
          | true => simp; omega
          | false => simp; omega
  · exact ⟨fun _ => .inl hends, fun _ => .inl hends⟩

/-- The counter is exact unless it counts too little or too much. -/
theorem rejected_iff_tooLarge (maxFrameBytes : ℕ) (hchunks : chunks.flatten = framed.bytes) :
    (framed.Rejected maxFrameBytes chunks ↔ framed.TooLarge maxFrameBytes) ↔
      framed.Counted maxFrameBytes chunks := by
  unfold FramedStream.Counted
  rw [← undercounted_iff, ← overcounted_iff maxFrameBytes hchunks]
  by_cases hlarge : framed.TooLarge maxFrameBytes
  · simp [hlarge]
  · simp [hlarge]

/-- For any two splits of a stream into chunks: the decoder accepts both or rejects both, and
rejects them exactly if a frame is too large, if and only if the limit is counted right for
both. -/
theorem frame_limit_exact_iff (hdecodes : arrow.Decodes schema framed) (hlimit : 1 ≤ maxFrameBytes)
    (hchunks : chunks.flatten = framed.bytes) (hothers : others.flatten = framed.bytes) :
    (((Accepts arrow maxFrameBytes chunks ∧ Accepts arrow maxFrameBytes others) ∨
        (Rejects arrow maxFrameBytes chunks ∧ Rejects arrow maxFrameBytes others)) ∧
      (Rejects arrow maxFrameBytes chunks ↔ framed.TooLarge maxFrameBytes) ∧
      (Rejects arrow maxFrameBytes others ↔ framed.TooLarge maxFrameBytes)) ↔
      framed.Counted maxFrameBytes chunks ∧ framed.Counted maxFrameBytes others := by
  rw [accepts_iff hdecodes hlimit hchunks, accepts_iff hdecodes hlimit hothers,
    rejects_iff hdecodes hlimit hchunks, rejects_iff hdecodes hlimit hothers,
    rejected_iff_tooLarge maxFrameBytes hchunks, rejected_iff_tooLarge maxFrameBytes hothers]
  refine ⟨fun hexact => hexact.2, fun hcounted => ⟨?_, hcounted⟩⟩
  have hfirst := (rejected_iff_tooLarge maxFrameBytes hchunks).mpr hcounted.1
  have hsecond := (rejected_iff_tooLarge maxFrameBytes hothers).mpr hcounted.2
  by_cases hlarge : framed.TooLarge maxFrameBytes
  · exact .inr ⟨hfirst.mpr hlarge, hsecond.mpr hlarge⟩
  · exact .inl ⟨fun hrejected => hlarge (hfirst.mp hrejected),
      fun hrejected => hlarge (hsecond.mp hrejected)⟩

/-! ## A decoder of sizes -/

/-- `decode` at a position of a stream from which this batch is the next. -/
def sizedDecode (framed : FramedStream) (position index : ℕ) (window : Bytes) :
    (ℕ × ℕ) × Option Unit × Bytes :=
  if (framed.due? index).any (· ≤ position + window.length) then
    ((framed.start (index + 1), index + 1), some (),
      window.drop (framed.start (index + 1) - position))
  else ((position + window.length, index), none, [])

/-- Arrow on a stream by the sizes of its frames: the decoder is its position and the number of
batches that it has yielded. -/
def sizedArrow (framed : FramedStream) : ArrowIpc Unit Unit Unit (ℕ × ℕ) where
  schemaOf _ := ()
  tryNew _ := .ok ((), [framed.schemaMessage])
  write _ _ := .ok ((), [])
  finish _ := .ok ((), [framed.marker])
  newDecoder := (0, 0)
  schema? decoder := if framed.head < decoder.1 then some () else none
  decode decoder window := .ok (sizedDecode framed decoder.1 decoder.2 window)
  finishDecoder _ := if framed.Ends then .ok () else .error "Unexpected End of Stream"

theorem sizedDecode_spec {position index : ℕ} (window : Bytes)
    (hbefore : ∀ due, framed.due? index = some due → position < due) :
    ∃ decoder batch used left,
      sizedDecode framed position index window = (decoder, batch, left) ∧ used ++ left = window ∧
      decoder = (position + used.length, index + batch.toList.length) ∧
      (∀ due, framed.due? decoder.2 = some due → decoder.1 < due) ∧
      ((∃ due, framed.due? index = some due ∧ due ≤ position + window.length ∧
          batch.isSome = true ∧ position + used.length = framed.start (index + 1)) ∨
        ((∀ due, framed.due? index = some due → position + window.length < due) ∧
          batch = none ∧ left = [])) := by
  unfold sizedDecode
  by_cases hany : (framed.due? index).any (· ≤ position + window.length) = true
  · obtain ⟨due, hdue, hle⟩ := (Option.any_eq_true _ _).mp hany
    have hle := of_decide_eq_true hle
    obtain ⟨frame, hframe, rfl⟩ := exists_frame hdue
    have hlt := hbefore _ hdue
    have hnext := start_succ hframe
    have hsize : frame.size ≤ frame.bytes.length + 1 := by
      unfold Frame.size
      split <;> omega
    have hlength := frame.length_le_size
    have hused : (window.take (framed.start (index + 1) - position)).length =
        framed.start (index + 1) - position := by
      rw [List.length_take]
      omega
    rw [if_pos hany]
    refine ⟨_, _, window.take (framed.start (index + 1) - position), _, rfl,
      List.take_append_drop _ _, ?_, fun due hdue => start_lt_due hdue,
      .inl ⟨_, hdue, hle, rfl, by omega⟩⟩
    rw [hused, Nat.add_sub_cancel' (by omega)]
    rfl
  · have hnone : ∀ due, framed.due? index = some due → position + window.length < due := by
      intro due hdue
      rw [hdue, Option.any_some] at hany
      exact Nat.lt_of_not_le fun hle => hany (decide_eq_true hle)
    rw [if_neg hany]
    exact ⟨_, _, window, _, rfl, List.append_nil _, rfl, hnone, .inr ⟨hnone, rfl, rfl⟩⟩

/-- The decoder is where it has read to, and no batch is overdue. -/
theorem sizedArrow_reads {decoder : ℕ × ℕ} {yielded : List Unit}
    (hreads : (sizedArrow framed).Reads framed.bytes decoder read yielded) :
    decoder = (read.length, yielded.length) ∧
      ∀ due, framed.due? yielded.length = some due → read.length < due := by
  induction hreads with
  | new => exact ⟨rfl, fun due hdue => Nat.zero_lt_of_lt (start_lt_due hdue)⟩
  | @decode decoder decoder' read window used left yielded batch _ _ _ hdecode hused ih =>
      obtain ⟨rfl, hbefore⟩ := ih
      obtain ⟨other, found, taken, rest, hvalue, htaken, hother, hlater, -⟩ :=
        sizedDecode_spec window hbefore
      have hsame : (other, found, rest) = (decoder', batch, left) :=
        hvalue.symm.trans (Except.ok.inj hdecode)
      cases hsame
      have hequal : taken = used := List.append_cancel_right (htaken.trans hused.symm)
      rw [hother, hequal] at hlater
      rw [hother, hequal, List.length_append, List.length_append]
      exact ⟨rfl, hlater⟩

theorem sizedArrow_decodes (framed : FramedStream) : (sizedArrow framed).Decodes () framed where
  schema_eq hreads := by
    rw [(sizedArrow_reads hreads).1]
    rfl
  finishes _ := ⟨fun hends => if_pos hends, fun hends => ⟨_, if_neg hends⟩⟩
  decodes := by
    intro decoder read yielded window hreads _ _
    obtain ⟨rfl, hbefore⟩ := sizedArrow_reads hreads
    obtain ⟨decoder', batch, used, left, hvalue, hused, -, -, hcases⟩ :=
      sizedDecode_spec window hbefore
    exact ⟨decoder', batch, used, left, congrArg Except.ok hvalue, hused, hcases⟩

/-- A schema message of two bytes and a batch of six, with a body. -/
def smallStream : FramedStream where
  schemaMessage := [1, 2]
  frames := [⟨[3, 4, 5, 6, 7, 8], true, by decide⟩]
  marker := []
  schemaMessage_pos := by decide
  marker_le := by decide

/-- The decoder takes a batch of six bytes for a limit of four, if two of them come with the
schema. -/
theorem large_batch_accepted :
    smallStream.TooLarge 4 ∧ Accepts (sizedArrow smallStream) 4 [smallStream.bytes] ∧
      Rejects (sizedArrow smallStream) 4 [[1, 2, 3], [4, 5, 6, 7, 8]] := by
  refine ⟨.inr ⟨_, List.mem_singleton_self _, by decide⟩, ?_, ?_⟩
  · rw [accepts_iff (sizedArrow_decodes smallStream) (by decide) rfl]
    rintro (hends | hhead | hlarge | ⟨later, hlater, -⟩)
    · exact hends (by decide)
    · exact absurd hhead (by decide)
    · exact absurd hlarge (by decide)
    · exact absurd hlater List.not_mem_nil
  · rw [rejects_iff (sizedArrow_decodes smallStream) (by decide) rfl]
    exact .inr (.inr (.inl (by decide)))

/-- A limit of six bytes is exact for it. -/
theorem fitting_batch_exact :
    smallStream.Counted 6 [smallStream.bytes] ∧
      smallStream.Counted 6 [[1, 2, 3], [4, 5, 6, 7, 8]] ∧
      (Rejects (sizedArrow smallStream) 6 [smallStream.bytes] ↔ smallStream.TooLarge 6) := by
  have hcounted : ∀ chunks, smallStream.Counted 6 chunks := by
    refine fun chunks => ⟨?_, ?_⟩
    · rintro ⟨-, -, first, frames, hcons, hlarge, -⟩
      cases hcons
      exact absurd hlarge (by decide)
    · rintro ⟨-, hends | hhead | ⟨frame, hframe, -⟩⟩
      · exact hends (by decide)
      · exact absurd hhead (by decide)
      · exact absurd hframe List.not_mem_nil
  exact ⟨hcounted _, hcounted _, ((frame_limit_exact_iff (sizedArrow_decodes smallStream)
    (by decide) rfl rfl).mpr ⟨hcounted [smallStream.bytes],
      hcounted [[1, 2, 3], [4, 5, 6, 7, 8]]⟩).2.1⟩

end ParqDB.Transport
