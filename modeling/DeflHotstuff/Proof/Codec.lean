import DeflHotstuff.Construction.Codec

namespace DeflHotstuff

open Verification

/-- A message whose length fits in the length field. -/
abbrev Sized (lengthFieldLength : Nat) :=
  {data : List UInt8 // data.length < 256 ^ lengthFieldLength}

/-- The frame of a message. -/
def frame (lengthFieldLength : Nat) (message : Sized lengthFieldLength) : List UInt8 :=
  bigEndian lengthFieldLength message.val.length ++ message.val

/-- Messages that were sent fit in the length field, and the bytes on the wire are their frames. -/
theorem frames_of_sent {lengthFieldLength : Nat} {messages frames : List (List UInt8)}
    (sent : messages.mapM (LengthDelimitedCodec.asyncLengthDelimitedSend lengthFieldLength) =
      some frames) :
    ∃ sized : List (Sized lengthFieldLength), sized.map Subtype.val = messages ∧
      frames.flatten = sized.flatMap (frame lengthFieldLength) := by
  induction messages generalizing frames with
  | nil =>
      cases sent
      exact ⟨[], rfl, rfl⟩
  | cons message rest ih =>
      simp only [List.mapM_cons, Option.bind_eq_bind, Option.bind_eq_some_iff,
        LengthDelimitedCodec.asyncLengthDelimitedSend, Option.ite_none_right_eq_some] at sent
      obtain ⟨bytes, ⟨fits, isFrame⟩, others, sentOthers, same⟩ := sent
      cases isFrame
      cases same
      obtain ⟨sized, rfl, flat⟩ := ih sentOthers
      refine ⟨⟨message, fits⟩ :: sized, rfl, ?_⟩
      rw [List.flatten_cons, List.flatMap_cons, flat, frame]

namespace CodecReader

variable {lengthFieldLength : Nat} {reader after : CodecReader} {fed : List UInt8}
  {event : CodecEvent}

/-- The part of the current frame that was read. -/
def header (lengthFieldLength : Nat) (reader : CodecReader) : List UInt8 :=
  match reader.reading with
  | .length => []
  | .payload length => bigEndian lengthFieldLength length

/-- The bytes of the current frame so far, which the received messages leave of the stream. -/
def current (lengthFieldLength : Nat) (reader : CodecReader) : List UInt8 :=
  reader.header lengthFieldLength ++ (reader.incomplete.getD [] ++ reader.buffer)

/-- The bytes so far are the frames of the received messages and the current frame. -/
structure Parses (lengthFieldLength : Nat) (fed : List UInt8) (reader : CodecReader) : Prop where
  sized : ∀ message ∈ reader.received, message.length < 256 ^ lengthFieldLength
  fits : ∀ length, reader.reading = .payload length → length < 256 ^ lengthFieldLength
  bytes : fed = (reader.received.flatMap fun message =>
      bigEndian lengthFieldLength message.length ++ message) ++ reader.current lengthFieldLength
  left : ∀ bytes, reader.incomplete = some bytes →
    reader.eof = true ∧ reader.buffer = [] ∧ bytes.length < reader.expected lengthFieldLength

/-- A new reader has parsed nothing. -/
theorem new_parses : new.Parses lengthFieldLength [] := by
  constructor <;> simp [new, current, header]

/-- A read that has its bytes takes the header or the payload of the current frame. -/
theorem Parses.complete {read rest : List UInt8} (parses : reader.Parses lengthFieldLength fed)
    (waiting : reader.incomplete = none) (split : reader.buffer = read ++ rest)
    (size : read.length = reader.expected lengthFieldLength) :
    ({ reader with buffer := rest }.complete read).Parses lengthFieldLength fed := by
  have bytes := parses.bytes
  rw [current, waiting, split] at bytes
  rcases reader with ⟨buffer, eof, _ | length, received, incomplete⟩
  · obtain rfl : read.length = lengthFieldLength := size
    refine ⟨parses.sized, ?_, ?_, ?_⟩
    · rintro length ⟨⟩
      exact ofBigEndian_lt read
    · simpa [CodecReader.complete, current, header, bigEndian_ofBigEndian, waiting] using bytes
    · intro left isLeft
      exact absurd (isLeft.symm.trans waiting) (Option.some_ne_none left)
  · obtain rfl : read.length = length := size
    have fits := parses.fits read.length rfl
    refine ⟨?_, ?_, ?_, ?_⟩
    · intro message inside
      rcases List.mem_append.mp inside with before | last
      · exact parses.sized message before
      · rwa [List.mem_singleton.mp last]
    · rintro length ⟨⟩
    · simpa [CodecReader.complete, current, header, waiting] using bytes
    · intro left isLeft
      exact absurd (isLeft.symm.trans waiting) (Option.some_ne_none left)

/-- A resumption goes on in the bytes that were fed. -/
theorem Parses.resume (parses : reader.Parses lengthFieldLength fed)
    (resumes : reader.resume lengthFieldLength = some after) :
    after.Parses lengthFieldLength fed := by
  simp only [CodecReader.resume, Option.isSome_iff_ne_none] at resumes
  split_ifs at resumes with raised enough ended
  · have waiting : reader.incomplete = none := not_not.mp raised
    cases resumes
    exact parses.complete waiting (List.take_append_drop _ _).symm
      (List.length_take_of_le enough)
  · have waiting : reader.incomplete = none := not_not.mp raised
    have bytes := parses.bytes
    rw [current, waiting] at bytes
    cases resumes
    refine ⟨parses.sized, parses.fits, ?_, ?_⟩
    · simpa [current, header] using bytes
    · rintro left ⟨⟩
      exact ⟨ended, rfl, Nat.lt_of_not_le enough⟩

/-- A step goes on in the bytes that were fed, with the new chunk behind them. -/
theorem Parses.step (parses : reader.Parses lengthFieldLength fed)
    (steps : reader.step lengthFieldLength event = some after) :
    after.Parses lengthFieldLength (fed ++ event.fed) := by
  cases event with
  | feedData chunk =>
      rw [CodecReader.step] at steps
      split_ifs at steps with ended
      cases steps
      refine ⟨parses.sized, parses.fits, ?_, ?_⟩
      · simp only [CodecEvent.fed, parses.bytes, current, List.append_assoc]
        rfl
      · intro left isLeft
        exact absurd (parses.left left isLeft).1 ended
  | feedEof =>
      cases steps
      rw [CodecEvent.fed, List.append_nil]
      exact ⟨parses.sized, parses.fits, parses.bytes, fun left isLeft =>
        ⟨rfl, (parses.left left isLeft).2⟩⟩
  | resume =>
      rw [CodecEvent.fed, List.append_nil]
      exact parses.resume steps

/-- A run parses what it was fed. -/
theorem Parses.execute (parses : reader.Parses lengthFieldLength fed) {events : List CodecEvent}
    (executed : (machine lengthFieldLength).execute reader events = some after) :
    after.Parses lengthFieldLength (fed ++ events.flatMap CodecEvent.fed) := by
  refine Machine.execute_history
    (fun taken state => state.Parses lengthFieldLength (fed ++ taken.flatMap CodecEvent.fed))
    (fun taken _ _ _ parses steps => ?_) [] ?_ executed
  · rw [List.flatMap_append, List.flatMap_singleton, ← List.append_assoc]
    exact parses.step steps
  · rwa [List.flatMap_nil, List.append_nil]

/-- A read that does not go on lacks bytes. -/
theorem Parses.lacks (parses : reader.Parses lengthFieldLength fed)
    (stuck : reader.resume lengthFieldLength = none) :
    (reader.incomplete.getD [] ++ reader.buffer).length < reader.expected lengthFieldLength := by
  simp only [CodecReader.resume] at stuck
  split_ifs at stuck with raised enough
  · obtain ⟨left, isLeft⟩ := Option.isSome_iff_exists.mp raised
    obtain ⟨-, empty, short⟩ := parses.left left isLeft
    simpa [isLeft, empty] using short
  · have waiting : reader.incomplete = none := by simpa using raised
    simpa [waiting] using enough

/-- The received messages are the first that were sent, and the stream goes on with the frames of
the others. -/
theorem Parses.prefix_of_sent {messages : List (Sized lengthFieldLength)} {rest : List UInt8}
    (parses : reader.Parses lengthFieldLength fed) (positive : 0 < lengthFieldLength)
    (sent : fed ++ rest = messages.flatMap (frame lengthFieldLength)) :
    ∃ others : List (Sized lengthFieldLength),
      reader.received ++ others.map Subtype.val = messages.map Subtype.val ∧
      reader.current lengthFieldLength ++ rest = others.flatMap (frame lengthFieldLength) := by
  have lifted : ∃ read : List (Sized lengthFieldLength), read.map Subtype.val = reader.received :=
    ⟨reader.received.attach.map fun message =>
      ⟨message.val, parses.sized message.val message.property⟩, by simp⟩
  obtain ⟨read, isRead⟩ := lifted
  have bytes : fed =
      read.flatMap (frame lengthFieldLength) ++ reader.current lengthFieldLength := by
    rw [parses.bytes, ← isRead, List.flatMap_map]
    rfl
  rw [bytes, List.append_assoc] at sent
  have begins : read.flatMap (frame lengthFieldLength) <+:
      messages.flatMap (frame lengthFieldLength) := ⟨_, sent⟩
  obtain ⟨others, rfl⟩ := (lengthDelimits lengthFieldLength positive).prefix_of_flatMap begins
  refine ⟨others, ?_, ?_⟩
  · rw [← isRead, List.map_append]
  · rw [List.flatMap_append] at sent
    exact List.append_cancel_left sent

/-- A stream with the whole frame of the next message has the bytes that the read expects. -/
theorem Parses.expected_le {message : Sized lengthFieldLength} {rest : List UInt8}
    (parses : reader.Parses lengthFieldLength fed)
    (begins : reader.current lengthFieldLength = frame lengthFieldLength message ++ rest) :
    reader.expected lengthFieldLength ≤ (reader.incomplete.getD [] ++ reader.buffer).length := by
  have length := congrArg List.length begins
  rcases reader with ⟨buffer, eof, _ | length, received, incomplete⟩
  · simp only [current, header, frame, List.length_append, length_bigEndian, List.length_nil]
      at length
    simp only [expected, List.length_append]
    omega
  · have fits := parses.fits _ rfl
    rw [current, header, frame, List.append_assoc] at begins
    obtain ⟨same, payload⟩ := List.append_inj begins (by simp)
    have sameLength := congrArg ofBigEndian same
    rw [ofBigEndian_bigEndian fits, ofBigEndian_bigEndian message.property] at sameLength
    rw [payload, expected, sameLength, List.length_append]
    exact Nat.le_add_right _ _

/-- Frames that arrived as a whole are received as a whole by the time the reads cannot go on. -/
theorem Parses.whole {messages : List (Sized lengthFieldLength)}
    (parses : reader.Parses lengthFieldLength (messages.flatMap (frame lengthFieldLength)))
    (positive : 0 < lengthFieldLength) (stuck : reader.resume lengthFieldLength = none) :
    reader.received = messages.map Subtype.val ∧ reader.reading = .length ∧ reader.buffer = [] ∧
      reader.incomplete.getD [] = [] := by
  obtain ⟨others, received, stream⟩ := parses.prefix_of_sent positive (List.append_nil _)
  rw [List.append_nil] at stream
  cases others with
  | nil =>
      have reading : reader.reading = .length := by
        rcases reader with ⟨buffer, eof, _ | length, received, incomplete⟩
        · rfl
        · have empty := congrArg List.length stream
          simp [current, header] at empty
          omega
      simp only [current, List.flatMap_nil, List.append_eq_nil_iff] at stream
      exact ⟨by simpa using received, reading, stream.2.2, stream.2.1⟩
  | cons message others =>
      have enough := parses.expected_le stream
      exact absurd (parses.lacks stuck) (Nat.not_lt.mpr enough)

/-- Each read takes bytes, completes a frame or raises an error. -/
def measure (reader : CodecReader) : Nat :=
  2 * reader.buffer.length +
    (match reader.reading with
      | .length => 0
      | .payload _ => 1) +
    (match reader.incomplete with
      | none => 1
      | some _ => 0)

/-- Every resumption uses up buffered bytes or ends the read. -/
theorem measure_resume (positive : 0 < lengthFieldLength)
    (resumes : reader.resume lengthFieldLength = some after) : after.measure < reader.measure := by
  rcases reader with ⟨buffer, eof, reading, received, _ | left⟩
  · simp only [CodecReader.resume] at resumes
    split_ifs at resumes with raised enough ended
    · cases resumes
      cases reading with
      | length =>
          have enough : lengthFieldLength ≤ buffer.length := enough
          simp only [measure, CodecReader.complete, expected, List.length_drop]
          omega
      | payload length =>
          have enough : length ≤ buffer.length := enough
          simp only [measure, CodecReader.complete, expected, List.length_drop]
          omega
    · cases resumes
      simp only [measure, List.length_nil]
      omega
  · cases resumes

/-- The reads go on only finitely many times without new bytes. -/
theorem settles (positive : 0 < lengthFieldLength) (reader : CodecReader) :
    ∃ count settled, (machine lengthFieldLength).execute reader
        (List.replicate count .resume) = some settled ∧
      settled.resume lengthFieldLength = none := by
  induction size : reader.measure using Nat.strong_induction_on generalizing reader with
  | _ size ih =>
      cases resumes : reader.resume lengthFieldLength with
      | none => exact ⟨0, reader, rfl, resumes⟩
      | some after =>
          have less := measure_resume positive resumes
          obtain ⟨count, settled, executed, stuck⟩ := ih after.measure (size ▸ less) after rfl
          refine ⟨count + 1, settled, ?_, stuck⟩
          rw [List.replicate_succ, Machine.execute]
          exact Option.bind_eq_some_iff.mpr ⟨after, resumes, executed⟩

end CodecReader

/-- However the stream is cut into chunks and the reads come between them, the messages received are
the first ones that were sent. Once all frames arrived, the reads come to a point where they cannot
go on, and at every such point all messages were received and nothing else is left. -/
theorem codec_delivers (lengthFieldLength : Nat) (positive : 0 < lengthFieldLength)
    {messages frames : List (List UInt8)} {events : List CodecEvent} {reader : CodecReader}
    (sent : messages.mapM (LengthDelimitedCodec.asyncLengthDelimitedSend lengthFieldLength) =
      some frames)
    (executed : (CodecReader.machine lengthFieldLength).execute .new events = some reader)
    (arrived : events.flatMap CodecEvent.fed <+: frames.flatten) :
    reader.received <+: messages ∧
      (events.flatMap CodecEvent.fed = frames.flatten →
        (∃ count settled, (CodecReader.machine lengthFieldLength).execute reader
            (List.replicate count .resume) = some settled ∧
          settled.resume lengthFieldLength = none ∧ settled.received = messages) ∧
        (reader.resume lengthFieldLength = none →
          reader.received = messages ∧ reader.reading = .length ∧ reader.buffer = [] ∧
            reader.incomplete.getD [] = [])) := by
  obtain ⟨sized, rfl, flat⟩ := frames_of_sent sent
  have parses := CodecReader.new_parses.execute executed
  rw [List.nil_append] at parses
  rw [flat] at arrived ⊢
  refine ⟨?_, fun whole => ⟨?_, ?_⟩⟩
  · obtain ⟨rest, split⟩ := arrived
    obtain ⟨others, received, -⟩ := parses.prefix_of_sent positive split
    exact ⟨_, received⟩
  · rw [whole] at parses
    obtain ⟨count, settled, resumed, stuck⟩ := CodecReader.settles positive reader
    have later := parses.execute resumed
    simp only [List.flatMap_replicate, CodecEvent.fed, List.flatten_replicate_nil, List.append_nil]
      at later
    exact ⟨count, settled, resumed, stuck, (later.whole positive stuck).1⟩
  · rw [whole] at parses
    exact parses.whole positive

namespace Plain

/-- Two messages in three chunks that cut the first header and the second payload, with an empty
message in front. -/
def chunkedStream : List CodecEvent :=
  [.feedData [0], .feedData [0, 0], .resume, .resume, .feedData [2, 7, 8, 0], .resume, .resume,
    .feedData [1, 9], .feedEof, .resume, .resume, .resume]

/-- Three messages cut across their borders come out whole. -/
theorem codec_delivers_chunkedStream : ∃ reader : CodecReader,
    (CodecReader.machine 2).execute .new chunkedStream = some reader ∧
      reader.received = [[], [7, 8], [9]] ∧ reader.incomplete.getD [] = [] := by
  have executed : (CodecReader.machine 2).execute .new chunkedStream =
      some ⟨[], true, .length, [[], [7, 8], [9]], some []⟩ := rfl
  have sent : [[], [7, 8], [9]].mapM (LengthDelimitedCodec.asyncLengthDelimitedSend 2) =
      some [[0, 0], [0, 2, 7, 8], [0, 1, 9]] := by decide
  have delivers := codec_delivers 2 (by decide) sent executed (by decide)
  obtain ⟨received, -, -, left⟩ := (delivers.2 (by decide)).2 rfl
  exact ⟨_, executed, received, left⟩

end Plain

end DeflHotstuff
