import ParqDB.Transport.IpcDecoder

/-!
# Rounds of the decoder

What `decode_ipc_stream` makes of its chunks is a matter of its rounds alone (`_read_next_chunk`),
not of when the caller takes which batch: if the rounds settle with an outcome (`Settles`), the
whole call has it (`decodeIpcStream_of_settles`).

**Strategy.**  The rounds settle by an invariant that the calls of the native decoder keep
(`Steady`): each round uses bytes or yields a batch, and of both there are only so many
(`Steady.settles`).  Which invariant it is depends on what is known of arrow's decoder and of the
limit of a frame.
-/

namespace ParqDB.Transport

open Foundations

variable {Schema Batch Writer Decoder : Type} [DecidableEq Schema]
  {arrow : ArrowIpc Schema Batch Writer Decoder}

/-- After so many rounds the input is finished, with a schema, or a round raises. -/
inductive Settles (arrow : ArrowIpc Schema Batch Writer Decoder) :
    ℕ → DecodedIpcStream Schema Batch Decoder → Except String (Schema × List Batch) → Prop
  | finished {stream : DecodedIpcStream Schema Batch Decoder} {schema : Schema}
      (hopen : stream.closed = false) (hfinished : stream.inputFinished = true)
      (hschema : stream.schema = some schema) :
      Settles arrow 0 stream (.ok (schema, stream.pending))
  | raises {stream : DecodedIpcStream Schema Batch Decoder} {message : String}
      (hopen : stream.closed = false) (hfinished : stream.inputFinished = false)
      (hround : stream.readNextChunk arrow = .error message) :
      Settles arrow 0 stream (.error message)
  | round {stream next : DecodedIpcStream Schema Batch Decoder} {rounds : ℕ}
      {outcome : Except String (Schema × List Batch)} (hopen : stream.closed = false)
      (hfinished : stream.inputFinished = false) (hround : stream.readNextChunk arrow = .ok next)
      (hrest : Settles arrow rounds next outcome) : Settles arrow (rounds + 1) stream outcome

variable {stream next : DecodedIpcStream Schema Batch Decoder}
  {outcome : Except String (Schema × List Batch)} {rounds fuel : ℕ} {schema : Schema}

/-! ## Batches that wait for the caller -/

/-- What comes after a stream, and after the stream with other batches that wait: the same error, or
the same batches are added, and the schema stays. -/
def Appends (stream : DecodedIpcStream Schema Batch Decoder) (pending : List Batch)
    (after after' : Except String (DecodedIpcStream Schema Batch Decoder)) : Prop :=
  (∀ message, after = .error message → after' = .error message) ∧
    ∀ next, after = .ok next → ∃ more, next.pending = stream.pending ++ more ∧
      after' = .ok { next with pending := pending ++ more } ∧
      ∀ schema, stream.schema = some schema → next.schema = some schema

/-- A round does not look at the batches that wait. -/
theorem readNextChunk_withPending (stream : DecodedIpcStream Schema Batch Decoder)
    (pending : List Batch) : Appends stream pending (stream.readNextChunk arrow)
      (({ stream with pending } : DecodedIpcStream _ _ _).readNextChunk arrow) := by
  have haccept : ∀ (stream : DecodedIpcStream Schema Batch Decoder) (receiver decoded),
      Appends stream pending (stream.accept receiver decoded)
        (({ stream with pending } : DecodedIpcStream _ _ _).accept receiver decoded) := by
    intro stream receiver decoded
    unfold DecodedIpcStream.accept
    cases decoded.schema with
    | none =>
        refine ⟨(fun message herror => by cases herror), fun next hnext => ?_⟩
        cases hnext
        exact ⟨_, rfl, rfl, fun schema hschema => hschema⟩
    | some schema =>
        dsimp only
        split
        · exact ⟨fun message herror => herror, (fun next hnext => by cases hnext)⟩
        · rename_i hsame
          refine ⟨(fun message herror => by cases herror), fun next hnext => ?_⟩
          cases hnext
          refine ⟨_, rfl, rfl, fun found hfound => ?_⟩
          by_contra hne
          exact hsame ⟨by rw [hfound]; rfl, fun heq => hne (heq.symm.trans hfound)⟩
  have hpush : ∀ (stream : DecodedIpcStream Schema Batch Decoder) (chunk : Bytes),
      Appends stream pending (stream.pushChunk arrow chunk)
        (({ stream with pending } : DecodedIpcStream _ _ _).pushChunk arrow chunk) := by
    intro stream chunk
    unfold DecodedIpcStream.pushChunk
    cases stream.decoder.push arrow chunk with
    | error error => exact ⟨fun message herror => herror, (fun next hnext => by cases hnext)⟩
    | ok pushed => exact haccept stream pushed.1 pushed.2
  unfold DecodedIpcStream.readNextChunk
  dsimp only
  split
  · exact hpush stream []
  · cases stream.source with
    | nil =>
        dsimp only
        cases stream.decoder.finish arrow with
        | error error => exact ⟨fun message herror => herror, (fun next hnext => by cases hnext)⟩
        | ok decoder =>
            refine ⟨(fun message herror => by cases herror), fun next hnext => ?_⟩
            cases hnext
            exact ⟨[], (List.append_nil _).symm, by rw [List.append_nil]; rfl,
              fun schema hschema => hschema⟩
    | cons chunk source => exact hpush { stream with source } chunk

section

variable (hsettles : Settles arrow rounds stream outcome)

include hsettles

/-- Batches that the caller has taken come first. -/
theorem Settles.withPending
    {delivered pending : List Batch} (hpending : stream.pending = delivered ++ pending) :
    ∃ rest, Settles arrow rounds { stream with pending } rest ∧
      outcome = rest.map fun result => (result.1, delivered ++ result.2) := by
  induction hsettles generalizing pending with
  | finished hopen hfinished hschema =>
      refine ⟨_, .finished hopen hfinished hschema, ?_⟩
      rw [hpending]
      rfl
  | @raises stream message hopen hfinished hround =>
      exact ⟨_, .raises hopen hfinished ((readNextChunk_withPending stream pending).1 _ hround), rfl⟩
  | @round stream next rounds outcome hopen hfinished hround _ ih =>
      obtain ⟨more, hmore, hlater, -⟩ := (readNextChunk_withPending stream pending).2 _ hround
      rw [hpending, List.append_assoc] at hmore
      obtain ⟨rest, hrest, houtcome⟩ := ih hmore
      exact ⟨rest, .round hopen hfinished hlater hrest, houtcome⟩

theorem Settles.isOpen :
    stream.closed = false := by
  cases hsettles with
  | finished hopen => exact hopen
  | raises hopen => exact hopen
  | round hopen => exact hopen

/-- Rounds from a finished input settle at once. -/
theorem Settles.eq_ok (hfinished : stream.inputFinished = true) :
    ∃ schema, stream.schema = some schema ∧ outcome = .ok (schema, stream.pending) := by
  cases hsettles with
  | finished _ _ hschema => exact ⟨_, hschema, rfl⟩
  | raises _ hunfinished =>
      rw [hfinished] at hunfinished
      cases hunfinished
  | round _ hunfinished =>
      rw [hfinished] at hunfinished
      cases hunfinished

/-- A schema that is there is that of the outcome. -/
theorem Settles.schema_eq (hschema : stream.schema = some schema) {result : Schema × List Batch}
    (houtcome : outcome = .ok result) : result.1 = schema := by
  induction hsettles with
  | finished _ _ hfound =>
      cases houtcome
      exact Option.some.inj (hfound.symm.trans hschema)
  | raises => cases houtcome
  | @round stream next rounds outcome _ _ hround _ ih =>
      obtain ⟨-, -, -, hkept⟩ := (readNextChunk_withPending stream stream.pending).2 _ hround
      exact ih (hkept schema hschema) houtcome

end

/-! ## The loops -/

/-- Where a loop stops. -/
structure Stops (arrow : ArrowIpc Schema Batch Writer Decoder)
    (enough : DecodedIpcStream Schema Batch Decoder → Bool) (rounds : ℕ)
    (stream : DecodedIpcStream Schema Batch Decoder)
    (outcome : Except String (Schema × List Batch)) (left : ℕ)
    (stopped : DecodedIpcStream Schema Batch Decoder) : Prop where
  read : ∀ fuel > rounds, stream.readUntil arrow enough fuel = .ok stopped
  settles : Settles arrow left stopped outcome
  stops : enough stopped = true ∨ stopped.inputFinished = true
  left_le : left ≤ rounds
  left_lt : enough stream = false → enough stopped = true → left < rounds

/-- A loop that need not read stops where it is. -/
theorem Settles.stops {enough : DecodedIpcStream Schema Batch Decoder → Bool}
    (hsettles : Settles arrow rounds stream outcome)
    (hstops : enough stream = true ∨ stream.inputFinished = true) :
    Stops arrow enough rounds stream outcome rounds stream := by
  refine ⟨fun fuel hfuel => ?_, hsettles, hstops, Nat.le_refl _, fun hnot hfound => ?_⟩
  · obtain ⟨fewer, rfl⟩ : ∃ fewer, fuel = fewer + 1 := ⟨fuel - 1, by omega⟩
    rw [DecodedIpcStream.readUntil, if_pos ((Bool.or_eq_true _ _).mpr hstops)]
  · rw [hnot] at hfound
    cases hfound

/-- A loop stops, or raises as the rounds do. -/
theorem Settles.readUntil (hsettles : Settles arrow rounds stream outcome)
    (enough : DecodedIpcStream Schema Batch Decoder → Bool) :
    (∃ left stopped, Stops arrow enough rounds stream outcome left stopped) ∨
      ∃ message, outcome = .error message ∧
        ∀ fuel > rounds, stream.readUntil arrow enough fuel = .error (.raised message) := by
  induction hsettles with
  | @finished stream schema hopen hfinished hschema =>
      exact .inl ⟨0, stream, Settles.stops (.finished hopen hfinished hschema) (.inr hfinished)⟩
  | @raises stream message hopen hfinished hround =>
      cases hfound : enough stream with
      | true => exact .inl ⟨0, stream, Settles.stops (.raises hopen hfinished hround) (.inl hfound)⟩
      | false =>
          refine .inr ⟨message, rfl, fun fuel hfuel => ?_⟩
          obtain ⟨fewer, rfl⟩ : ∃ fewer, fuel = fewer + 1 := ⟨fuel - 1, by omega⟩
          rw [DecodedIpcStream.readUntil, hfound, hfinished, hround]
          rfl
  | @round stream next rounds outcome hopen hfinished hround hrest ih =>
      cases hfound : enough stream with
      | true =>
          exact .inl ⟨_, stream, Settles.stops (.round hopen hfinished hround hrest) (.inl hfound)⟩
      | false =>
          have hstep : ∀ fuel > rounds + 1, stream.readUntil arrow enough fuel =
              next.readUntil arrow enough (fuel - 1) := by
            intro fuel hfuel
            obtain ⟨fewer, rfl⟩ : ∃ fewer, fuel = fewer + 1 := ⟨fuel - 1, by omega⟩
            rw [DecodedIpcStream.readUntil, hfound, hfinished, hround]
            rfl
          rcases ih with ⟨left, stopped, hstops⟩ | ⟨message, houtcome, hraises⟩
          · exact .inl ⟨left, stopped,
              fun fuel hfuel => (hstep fuel hfuel).trans (hstops.read _ (by omega)),
              hstops.settles, hstops.stops, Nat.le_succ_of_le hstops.left_le,
              fun _ _ => Nat.lt_succ_of_le hstops.left_le⟩
          · exact .inr ⟨message, houtcome,
              fun fuel hfuel => (hstep fuel hfuel).trans (hraises _ (by omega))⟩

variable {stopped : DecodedIpcStream Schema Batch Decoder}

/-- `__anext__` of a stream that is not closed. -/
theorem next_eq (hopen : stream.closed = false)
    (hread : stream.readUntil arrow DecodedIpcStream.hasBatch fuel = .ok stopped) :
    stream.next arrow fuel =
      match stopped.pending with
      | batch :: pending => .ok (some batch, { stopped with pending })
      | [] => .ok (none, { stopped with closed := true }) := by
  unfold DecodedIpcStream.next
  rw [if_neg (by rw [hopen]; exact Bool.false_ne_true), hread]
  rfl

theorem next_raised (hopen : stream.closed = false) {message : String}
    (hread : stream.readUntil arrow DecodedIpcStream.hasBatch fuel = .error (.raised message)) :
    stream.next arrow fuel = .error (.raised message) := by
  unfold DecodedIpcStream.next
  rw [if_neg (by rw [hopen]; exact Bool.false_ne_true), hread]
  rfl

/-- A call of `__anext__` that delivers a batch, and the calls after it. -/
theorem Stops.deliver {left : ℕ}
    (hopen : stream.closed = false)
    (hstops : Stops arrow DecodedIpcStream.hasBatch rounds stream outcome left stopped)
    {batch : Batch} {pending : List Batch} (hpending : stopped.pending = batch :: pending)
    (hrest : ∀ rest, Settles arrow left { stopped with pending } rest →
      Drains (DecodedIpcStream.next arrow) { stopped with pending } (rest.map Prod.snd)) :
    Drains (DecodedIpcStream.next arrow) stream (outcome.map Prod.snd) := by
  have hsplit : stopped.pending = [batch] ++ pending := hpending
  obtain ⟨rest, hsettles, rfl⟩ := hstops.settles.withPending hsplit
  have hdrains := (hrest rest hsettles).cons (rounds + 1) fun fuel hfuel => by
    rw [next_eq hopen (hstops.read fuel (by omega)), hpending]
  cases rest <;> exact hdrains

/-- All calls of `__anext__`. -/
theorem Settles.drains (hsettles : Settles arrow rounds stream outcome) :
    Drains (DecodedIpcStream.next arrow) stream (outcome.map Prod.snd) := by
  -- by the rounds that are left, and then by the batches that wait
  induction rounds using Nat.strongRecOn generalizing stream outcome with
  | _ rounds ih =>
      induction hwaiting : stream.pending generalizing stream outcome with
      | cons batch pending ihPending =>
          have hbatch : stream.hasBatch = true := by
            rw [DecodedIpcStream.hasBatch, hwaiting]
            rfl
          exact (hsettles.stops (.inl hbatch)).deliver hsettles.isOpen hwaiting
            fun rest hrest => ihPending hrest rfl
      | nil =>
          have hnone : stream.hasBatch = false := by
            rw [DecodedIpcStream.hasBatch, hwaiting]
            rfl
          rcases hsettles.readUntil DecodedIpcStream.hasBatch with
            ⟨left, stopped, hstops⟩ | ⟨message, rfl, hraises⟩
          · cases hpending : stopped.pending with
            | nil =>
                -- no batch waits, so the input is finished
                have hfinished : stopped.inputFinished = true := by
                  refine hstops.stops.resolve_left fun hbatch => ?_
                  rw [DecodedIpcStream.hasBatch, hpending] at hbatch
                  cases hbatch
                obtain ⟨schema, -, rfl⟩ := hstops.settles.eq_ok hfinished
                rw [hpending]
                have hend : ∀ fuel ≥ rounds + 1, stream.next arrow fuel =
                    .ok (none, { stopped with closed := true }) := by
                  intro fuel hfuel
                  rw [next_eq hsettles.isOpen (hstops.read fuel (by omega)), hpending]
                exact Drains.stop _ hend
            | cons batch pending =>
                have hbatch : stopped.hasBatch = true := by
                  rw [DecodedIpcStream.hasBatch, hpending]
                  rfl
                exact hstops.deliver hsettles.isOpen hpending fun rest hrest =>
                  ih left (hstops.left_lt hnone hbatch) hrest
          · exact Drains.error (rounds + 1) fun fuel hfuel =>
              next_raised hsettles.isOpen (hraises fuel (by omega))

/-! ## From the first chunk -/

variable {maxFrameBytes : ℕ} {chunks : List Bytes}

/-- The stream that `decode_ipc_stream` starts with. -/
def startOf (arrow : ArrowIpc Schema Batch Writer Decoder) (maxFrameBytes : ℕ)
    (chunks : List Bytes) : DecodedIpcStream Schema Batch Decoder :=
  ⟨chunks, ⟨arrow.newDecoder, maxFrameBytes, 0, none, false, false⟩, none, [], false, false, false⟩

/-- The decoder from its first chunk on. -/
theorem decodeIpcStream_eq (hpositive : 0 < maxFrameBytes) (fuel : ℕ) :
    decodeIpcStream arrow chunks maxFrameBytes fuel = (do
      let (schema, stream) ← (startOf arrow maxFrameBytes chunks).readSchema arrow fuel
      let batches ← drain (DecodedIpcStream.next arrow fuel) fuel stream
      .ok (schema, batches)) := by
  have hnew : PyIpcDecoder.new arrow maxFrameBytes =
      .ok ⟨arrow.newDecoder, maxFrameBytes, 0, none, false, false⟩ := by
    unfold PyIpcDecoder.new validatePositive
    rw [rejectIf_bind_eq_ok]
    exact ⟨by omega, rfl⟩
  unfold decodeIpcStream
  rw [hnew]
  rfl

/-- The whole call has the outcome of its rounds. -/
theorem decodeIpcStream_of_settles (hpositive : 0 < maxFrameBytes)
    (hsettles : Settles arrow rounds (startOf arrow maxFrameBytes chunks) outcome) :
    ∃ least, ∀ fuel ≥ least,
      decodeIpcStream arrow chunks maxFrameBytes fuel = raised outcome := by
  rcases hsettles.readUntil DecodedIpcStream.hasSchema with
    ⟨left, stopped, hstops⟩ | ⟨message, rfl, hraises⟩
  · obtain ⟨schema, hschema⟩ : ∃ schema, stopped.schema = some schema := by
      rcases hstops.stops with hfound | hfinished
      · exact Option.isSome_iff_exists.mp hfound
      · obtain ⟨schema, hschema, -⟩ := hstops.settles.eq_ok hfinished
        exact ⟨schema, hschema⟩
    obtain ⟨least, hdrain⟩ := hstops.settles.drains
    refine ⟨max least rounds + 1, fun fuel hfuel => ?_⟩
    have hfirst : (startOf arrow maxFrameBytes chunks).readSchema arrow fuel =
        .ok (schema, stopped) := by
      unfold DecodedIpcStream.readSchema
      rw [hstops.read fuel (by omega), ok_bind, hschema]
    rw [decodeIpcStream_eq hpositive, hfirst, ok_bind]
    dsimp only
    rw [hdrain fuel (by omega) fuel (by omega)]
    cases houtcome : outcome with
    | error message => rfl
    | ok result =>
        have hsame : result.1 = schema := hstops.settles.schema_eq hschema houtcome
        rw [← hsame]
        rfl
  · refine ⟨rounds + 1, fun fuel hfuel => ?_⟩
    have hfirst : (startOf arrow maxFrameBytes chunks).readSchema arrow fuel =
        .error (.raised message) := by
      unfold DecodedIpcStream.readSchema
      rw [hraises fuel hfuel]
      rfl
    rw [decodeIpcStream_eq hpositive, hfirst]
    rfl

/-! ## Invariants of the native decoder -/

/-- Calls of the native decoder keep an invariant of what it has read and yielded, with the chunks
that are still to come, and at the end of all bytes arrow's decoder rejects or accepts them. -/
structure Steady (arrow : ArrowIpc Schema Batch Writer Decoder) (schema : Schema) (target : Bytes)
    (most : ℕ) (rejects : Prop) (accepts : List Batch → Prop)
    (Invariant : Bytes → List Batch → List Bytes → PyIpcDecoder Decoder → Prop) : Prop where
  pending_ne : ∀ {read yielded source self}, Invariant read yielded source self →
    self.pending ≠ some []
  unfinished : ∀ {read yielded source self}, Invariant read yielded source self →
    self.finished = false
  yielded_le : ∀ {read yielded source self}, Invariant read yielded source self →
    yielded.length ≤ most
  skip : ∀ {read yielded source self}, Invariant read yielded ([] :: source) self →
    self.pending = none → Invariant read yielded source self
  take : ∀ {read yielded chunk source self}, Invariant read yielded (chunk :: source) self →
    self.pending = none → chunk ≠ [] → read ++ chunk <+: target →
    Invariant read yielded source { self with pending := some chunk }
  window : ∀ {read yielded source self input}, Invariant read yielded source self →
    self.pending = some input →
    (self.maxFrameBytes ≤ self.bytesSinceBoundary ∧ rejects) ∨
      ∃ decoder batch used, Window arrow schema self input decoder batch used ∧
        Invariant (read ++ used) (yielded ++ batch.toList) source
          (self.advance arrow decoder batch input used.length)
  finish : ∀ {yielded self}, Invariant target yielded [] self → self.pending = none →
    (rejects ∧ ∃ error, arrow.finishDecoder self.decoder = .error error) ∨
      (accepts yielded ∧ self.schemaEmitted = true ∧ arrow.finishDecoder self.decoder = .ok ())

/-- The stream between two rounds, before the end of its input.  No batch has been taken. -/
structure OnStream (schema : Schema) (target : Bytes)
    (Invariant : Bytes → List Batch → List Bytes → PyIpcDecoder Decoder → Prop) (read : Bytes)
    (yielded : List Batch) (stream : DecodedIpcStream Schema Batch Decoder) : Prop where
  invariant : Invariant read yielded stream.source stream.decoder
  bytes_eq : read ++ stream.decoder.pending.getD [] ++ stream.source.flatten = target
  buffered : stream.decoderBuffered = stream.decoder.pending.isSome
  schema_eq : stream.schema = if stream.decoder.schemaEmitted then some schema else none
  yielded_eq : stream.pending = yielded
  unfinished : stream.inputFinished = false
  isOpen : stream.closed = false

/-- The rounds that can still follow. -/
def roundsLeft (target : Bytes) (most : ℕ) (read : Bytes) (yielded : List Batch)
    (stream : DecodedIpcStream Schema Batch Decoder) : ℕ :=
  stream.source.length + (target.length - read.length) + (most - yielded.length)

/-- A round raises since the stream is rejected, or leads on. -/
def Advances (arrow : ArrowIpc Schema Batch Writer Decoder) (schema : Schema) (target : Bytes)
    (most : ℕ) (rejects : Prop)
    (Invariant : Bytes → List Batch → List Bytes → PyIpcDecoder Decoder → Prop) (read : Bytes)
    (yielded : List Batch) (stream : DecodedIpcStream Schema Batch Decoder) : Prop :=
  (rejects ∧ ∃ message, stream.readNextChunk arrow = .error message) ∨
    ∃ stream' read' yielded', stream.readNextChunk arrow = .ok stream' ∧
      OnStream schema target Invariant read' yielded' stream' ∧
      roundsLeft target most read' yielded' stream' < roundsLeft target most read yielded stream

variable {target : Bytes} {most : ℕ} {rejects : Prop} {accepts : List Batch → Prop}
  {Invariant : Bytes → List Batch → List Bytes → PyIpcDecoder Decoder → Prop} {read : Bytes}
  {yielded : List Batch} {source : List Bytes}

omit [DecidableEq Schema] in
theorem Announces.trans {before middle after : Bool} {first second third : Option Schema}
    (hfirst : Announces schema before middle first second)
    (hsecond : Announces schema middle after second third) :
    Announces schema before after first third := by
  rcases hfirst with ⟨hfound, hemitted⟩ | ⟨hfound, hbefore, hemitted⟩
  · rw [hfound, hemitted] at hsecond
    exact hsecond
  · rcases hsecond with ⟨hother, hlater⟩ | ⟨-, hnot, -⟩
    · exact .inr ⟨hother.trans hfound, hbefore, hlater.trans hemitted⟩
    · rw [hemitted] at hnot
      cases hnot

omit [DecidableEq Schema] in
/-- What a call of `decode_next` makes of its input: it rejects a stream that is to be rejected, or
uses some of the input or yields a batch. -/
theorem Steady.decodeLoop {self : PyIpcDecoder Decoder}
    (hsteady : Steady arrow schema target most rejects accepts Invariant)
    (hkept : Invariant read yielded source self) (found : Option Schema) :
    (rejects ∧ self.decodeLoop arrow found = .error frameTooLarge) ∨
      ∃ receiver decoded used, self.decodeLoop arrow found = .ok (receiver, decoded) ∧
        Invariant (read ++ used) (yielded ++ decoded.batch.toList) source receiver ∧
        used ++ receiver.pending.getD [] = self.pending.getD [] ∧
        decoded.hasBufferedInput = receiver.pending.isSome ∧
        (self.pending ≠ none → 0 < used.length + decoded.batch.toList.length) ∧
        Announces schema self.schemaEmitted receiver.schemaEmitted found decoded.schema := by
  induction hlength : (self.pending.getD []).length using Nat.strongRecOn
    generalizing self read yielded found with
  | _ length ih =>
      cases hpending : self.pending with
      | none =>
          right
          refine ⟨self, ⟨found, none, false⟩, [], decodeLoop_none hpending found, ?_, ?_, ?_, ?_,
            .inl ⟨rfl, rfl⟩⟩
          · simpa using hkept
          · rw [hpending]
            rfl
          · rw [hpending]
            rfl
          · exact fun hsome => absurd rfl hsome
      | some input =>
          rcases hsteady.window hkept hpending with
            ⟨hfull, hrejects⟩ | ⟨decoder, batch, used, hwindow, hnext⟩
          · exact .inl ⟨hrejects, decodeLoop_full hpending hfull found⟩
          · obtain ⟨left, hdecode, htaken⟩ := hwindow.decodes _ rfl
            have hloop := decodeLoop_window hpending hwindow.room rfl hdecode found
            rw [htaken] at hloop
            have hannounces : Announces schema self.schemaEmitted
                (self.advance arrow decoder batch input used.length).schemaEmitted found
                (self.announce arrow decoder found) :=
              announces_of_schema hwindow.schema_eq batch input used.length found
            cases batch with
            | some batch =>
                right
                refine ⟨_, _, used, hloop, hnext, ?_, rfl, fun _ => Nat.succ_pos _, hannounces⟩
                rw [pending_advance, Option.getD_some]
                exact hwindow.split
            | none =>
                -- without a batch the window was used, and the rest of the input is shorter
                have hpositive := List.length_pos_of_ne_nil (hwindow.progress rfl)
                have hshorter : ((self.advance arrow decoder none input
                    used.length).pending.getD []).length < length := by
                  rw [← hlength, hpending, Option.getD_some, pending_advance, List.length_drop]
                  have hinput := congrArg List.length hwindow.split
                  rw [List.length_append] at hinput
                  omega
                dsimp only at hloop
                rw [if_neg (Nat.ne_of_gt hpositive)] at hloop
                rw [hloop]
                have hsame : yielded ++ (none : Option Batch).toList = yielded :=
                  List.append_nil yielded
                rw [hsame] at hnext
                rcases ih _ hshorter hnext (self.announce arrow decoder found) rfl with
                  hrejected | ⟨receiver, decoded, more, hdecoded, hreceiver, hbytes, hbuffered, -,
                    hlater⟩
                · exact .inl hrejected
                · right
                  refine ⟨receiver, decoded, used ++ more, hdecoded, ?_, ?_, hbuffered, ?_,
                    hannounces.trans hlater⟩
                  · rw [← List.append_assoc]
                    exact hreceiver
                  · rw [List.append_assoc, hbytes, pending_advance, Option.getD_some]
                    exact hwindow.split
                  · intro _
                    rw [List.length_append]
                    omega

theorem pushChunk_unfinished (stream : DecodedIpcStream Schema Batch Decoder)
    (hunfinished : stream.decoder.finished = false) (chunk : Bytes) :
    stream.pushChunk arrow chunk =
      (((stream.decoder.decodeNext arrow chunk).mapError ipcError) >>= fun pushed =>
        stream.accept pushed.1 pushed.2) := by
  unfold DecodedIpcStream.pushChunk PyIpcDecoder.push
  rw [rejectIf_eq_ok.mpr (by rw [hunfinished]; exact Bool.false_ne_true)]
  rfl

section

variable (hsteady : Steady arrow schema target most rejects accepts Invariant)
  (hon : OnStream schema target Invariant read yielded stream)

include hsteady hon

/-- A round that gives the native decoder some input. -/
theorem OnStream.push
    (hpending : stream.decoder.pending ≠ none) {chunk : Bytes} {receiver : PyIpcDecoder Decoder}
    (hround : stream.readNextChunk arrow =
      (((receiver.decodeNext arrow chunk).mapError ipcError) >>= fun pushed =>
        stream.accept pushed.1 pushed.2))
    (hdecode : receiver.decodeNext arrow chunk = stream.decoder.decodeLoop arrow none) :
    Advances arrow schema target most rejects Invariant read yielded stream := by
  unfold Advances
  rw [hround, hdecode]
  rcases hsteady.decodeLoop hon.invariant none with
    ⟨hrejects, hloop⟩ | ⟨receiver, decoded, used, hloop, hkept, hbytes, hbuffered, hused,
      hannounces⟩
  · left
    rw [hloop]
    exact ⟨hrejects, _, rfl⟩
  · right
    rw [hloop]
    have hall : read ++ used ++ receiver.pending.getD [] ++ stream.source.flatten = target := by
      rw [List.append_assoc read used, hbytes]
      exact hon.bytes_eq
    refine ⟨_, read ++ used, yielded ++ decoded.batch.toList, accept_spec hon.schema_eq hannounces,
      ⟨hkept, hall, hbuffered, rfl, ?_, hon.unfinished, hon.isOpen⟩, ?_⟩
    · rw [← hon.yielded_eq]
    · have hlength := congrArg List.length hall
      have hyielded := hsteady.yielded_le hkept
      have hprogress := hused hpending
      simp only [List.length_append] at hlength hyielded
      unfold roundsLeft
      rw [List.length_append, List.length_append]
      show stream.source.length + _ + _ < _
      omega

/-- A round that takes a chunk with bytes. -/
theorem OnStream.take (hnone : stream.decoder.pending = none) {chunk : Bytes}
    (hsource : stream.source = chunk :: source) (hchunk : chunk ≠ []) :
    Advances arrow schema target most rejects Invariant read yielded stream := by
  -- the state in which the chunk is the input of the native decoder
  let receiver : PyIpcDecoder Decoder := { stream.decoder with pending := some chunk }
  let fed : DecodedIpcStream Schema Batch Decoder :=
    { stream with source, decoder := receiver, decoderBuffered := true }
  have hbytes := hon.bytes_eq
  rw [hnone, Option.getD_none, List.append_nil, hsource, List.flatten_cons, ← List.append_assoc]
    at hbytes
  have hinvariant := hon.invariant
  rw [hsource] at hinvariant
  have hfed : OnStream schema target Invariant read yielded fed :=
    ⟨hsteady.take hinvariant hnone hchunk ⟨_, hbytes⟩, hbytes, rfl, hon.schema_eq, hon.yielded_eq,
      hon.unfinished, hon.isOpen⟩
  have hunfinished := hsteady.unfinished hon.invariant
  have hbuffered : stream.decoderBuffered = false := by
    rw [hon.buffered, hnone]
    rfl
  have hstream : stream.readNextChunk arrow =
      (((stream.decoder.decodeNext arrow chunk).mapError ipcError) >>= fun pushed =>
        fed.accept pushed.1 pushed.2) := by
    unfold DecodedIpcStream.readNextChunk
    rw [if_neg (by rw [hbuffered]; exact Bool.false_ne_true), hsource]
    exact pushChunk_unfinished { stream with source } hunfinished chunk
  have hround : fed.readNextChunk arrow =
      (((receiver.decodeNext arrow []).mapError ipcError) >>= fun pushed =>
        fed.accept pushed.1 pushed.2) := by
    unfold DecodedIpcStream.readNextChunk
    rw [if_pos rfl]
    exact pushChunk_unfinished fed hunfinished []
  have hdecode : stream.decoder.decodeNext arrow chunk = receiver.decodeLoop arrow none := by
    unfold PyIpcDecoder.decodeNext
    rw [if_neg hchunk, hnone, rejectIf_eq_ok.mpr (by exact Bool.false_ne_true)]
    rfl
  have hsame : stream.readNextChunk arrow = fed.readNextChunk arrow := by
    rw [hstream, hround, hdecode]
    rfl
  unfold Advances
  rw [hsame]
  rcases hfed.push hsteady (by exact Option.some_ne_none _) hround rfl with
    hrejected | ⟨next, read', yielded', hnext, hkept, hless⟩
  · exact .inl hrejected
  · refine .inr ⟨next, read', yielded', hnext, hkept, Nat.lt_trans hless ?_⟩
    unfold roundsLeft
    rw [hsource, List.length_cons]
    show source.length + _ + _ < _
    omega

/-- A round that takes an empty chunk. -/
theorem OnStream.skip
    (hnone : stream.decoder.pending = none) (hsource : stream.source = [] :: source) :
    stream.readNextChunk arrow = .ok { stream with source } ∧
      OnStream schema target Invariant read yielded { stream with source } := by
  have hbuffered : stream.decoderBuffered = false := by
    rw [hon.buffered, hnone]
    rfl
  have hdecode : stream.decoder.decodeNext arrow [] =
      .ok (stream.decoder, (⟨none, none, false⟩ : DecodedChunk Schema Batch)) :=
    decodeLoop_none hnone none
  have hinvariant := hon.invariant
  rw [hsource] at hinvariant
  refine ⟨?_, hsteady.skip hinvariant hnone, ?_, hon.buffered, hon.schema_eq, hon.yielded_eq,
    hon.unfinished, hon.isOpen⟩
  · calc stream.readNextChunk arrow
        = ({ stream with source } : DecodedIpcStream _ _ _).pushChunk arrow [] := by
          unfold DecodedIpcStream.readNextChunk
          rw [if_neg (by rw [hbuffered]; exact Bool.false_ne_true), hsource]
      _ = ({ stream with source } : DecodedIpcStream _ _ _).accept stream.decoder
            (⟨none, none, false⟩ : DecodedChunk Schema Batch) := by
          rw [pushChunk_unfinished _ (by exact hsteady.unfinished hon.invariant)]
          show (((stream.decoder.decodeNext arrow []).mapError ipcError) >>= _) = _
          rw [hdecode]
          rfl
      _ = .ok { stream with source } := by
          rw [DecodedIpcStream.accept, ← hbuffered]
          simp
  · have hbytes := hon.bytes_eq
    rw [hsource] at hbytes
    exact hbytes

/-- The end of the input. -/
theorem OnStream.finish (hnone : stream.decoder.pending = none) (hsource : stream.source = []) :
    (rejects ∧ ∃ message, stream.readNextChunk arrow = .error message) ∨
      (accepts yielded ∧ ∃ next, stream.readNextChunk arrow = .ok next ∧
        Settles arrow 0 next (.ok (schema, yielded))) := by
  have hread : read = target := by
    have hbytes := hon.bytes_eq
    rw [hnone, hsource] at hbytes
    simpa using hbytes
  have hinvariant := hon.invariant
  rw [hread, hsource] at hinvariant
  have hbuffered : stream.decoderBuffered = false := by
    rw [hon.buffered, hnone]
    rfl
  have hround : stream.readNextChunk arrow = stream.decoder.finish arrow >>= fun decoder =>
      .ok { stream with decoder, inputFinished := true } := by
    unfold DecodedIpcStream.readNextChunk
    rw [if_neg (by rw [hbuffered]; exact Bool.false_ne_true), hsource]
  rw [finish_eq (hsteady.unfinished hon.invariant) hnone] at hround
  rcases hsteady.finish hinvariant hnone with
    ⟨hrejects, error, herror⟩ | ⟨haccepts, hemitted, hok⟩
  · rw [herror] at hround
    exact .inl ⟨hrejects, _, hround⟩
  · rw [hok] at hround
    have hschema := hon.schema_eq
    rw [if_pos hemitted] at hschema
    have hdone := hon.yielded_eq
    subst hdone
    exact .inr ⟨haccepts, _, hround, .finished hon.isOpen rfl hschema⟩

/-- The rounds settle. -/
theorem Steady.settles :
    ∃ rounds, (rejects ∧ ∃ message, Settles arrow rounds stream (.error message)) ∨
      ∃ batches, accepts batches ∧ Settles arrow rounds stream (.ok (schema, batches)) := by
  induction hleft : roundsLeft target most read yielded stream using Nat.strongRecOn
    generalizing stream read yielded with
  | _ left ih =>
      subst hleft
      have hstep : Advances arrow schema target most rejects Invariant read yielded stream →
          ∃ rounds, (rejects ∧ ∃ message, Settles arrow rounds stream (.error message)) ∨
            ∃ batches, accepts batches ∧ Settles arrow rounds stream (.ok (schema, batches)) := by
        rintro (⟨hrejects, message, hround⟩ | ⟨next, read', yielded', hround, hkept, hless⟩)
        · exact ⟨0, .inl ⟨hrejects, message, .raises hon.isOpen hon.unfinished hround⟩⟩
        · obtain ⟨rounds, ⟨hrejects, message, hrest⟩ | ⟨batches, haccepts, hrest⟩⟩ :=
            ih _ hless hkept rfl
          · exact ⟨rounds + 1, .inl ⟨hrejects, message,
              .round hon.isOpen hon.unfinished hround hrest⟩⟩
          · exact ⟨rounds + 1, .inr ⟨batches, haccepts,
              .round hon.isOpen hon.unfinished hround hrest⟩⟩
      cases hpending : stream.decoder.pending with
      | some input =>
          have hbuffered : stream.decoderBuffered = true := by
            rw [hon.buffered, hpending]
            rfl
          have hround : stream.readNextChunk arrow =
              (((stream.decoder.decodeNext arrow []).mapError ipcError) >>= fun pushed =>
                stream.accept pushed.1 pushed.2) := by
            unfold DecodedIpcStream.readNextChunk
            rw [if_pos hbuffered]
            exact pushChunk_unfinished stream (hsteady.unfinished hon.invariant) []
          have hsome : stream.decoder.pending ≠ none := by
            rw [hpending]
            exact Option.some_ne_none _
          exact hstep (hon.push hsteady hsome hround rfl)
      | none =>
          cases hsource : stream.source with
          | nil =>
              rcases hon.finish hsteady hpending hsource with
                ⟨hrejects, message, hround⟩ | ⟨haccepts, next, hround, hdone⟩
              · exact ⟨0, .inl ⟨hrejects, message, .raises hon.isOpen hon.unfinished hround⟩⟩
              · exact ⟨1, .inr ⟨yielded, haccepts,
                  .round hon.isOpen hon.unfinished hround hdone⟩⟩
          | cons chunk source =>
              by_cases hchunk : chunk = []
              · subst hchunk
                obtain ⟨hround, hkept⟩ := hon.skip hsteady hpending hsource
                refine hstep (.inr ⟨_, read, yielded, hround, hkept, ?_⟩)
                unfold roundsLeft
                rw [hsource, List.length_cons]
                show source.length + _ + _ < _
                omega
              · exact hstep (hon.take hsteady hpending hsource hchunk)

end

/-- The whole call raises, or returns the schema and batches that are accepted. -/
theorem Steady.decode (hsteady : Steady arrow schema chunks.flatten most rejects accepts Invariant)
    (hpositive : 0 < maxFrameBytes)
    (hstart : Invariant [] [] chunks (startOf arrow maxFrameBytes chunks).decoder) :
    (rejects ∧ ∃ least message, ∀ fuel ≥ least,
        decodeIpcStream arrow chunks maxFrameBytes fuel = .error (.raised message)) ∨
      ∃ batches, accepts batches ∧ ∃ least, ∀ fuel ≥ least,
        decodeIpcStream arrow chunks maxFrameBytes fuel = .ok (schema, batches) := by
  have hon : OnStream schema chunks.flatten Invariant [] [] (startOf arrow maxFrameBytes chunks) :=
    ⟨hstart, rfl, rfl, rfl, rfl, rfl, rfl⟩
  obtain ⟨rounds, ⟨hrejects, message, hsettles⟩ | ⟨batches, haccepts, hsettles⟩⟩ :=
    hsteady.settles hon
  · obtain ⟨least, hdecode⟩ := decodeIpcStream_of_settles hpositive hsettles
    exact .inl ⟨hrejects, least, message, hdecode⟩
  · obtain ⟨least, hdecode⟩ := decodeIpcStream_of_settles hpositive hsettles
    exact .inr ⟨batches, haccepts, least, hdecode⟩

end ParqDB.Transport
