import Aoox.JsString
import Aoox.Framing
import Aoox.Utf8
import Mathlib.Algebra.Group.Nat.Defs

/-! # The multiplexed streams of Docker

A container's output comes in frames: eight bytes of header, the last four of them the length of
what follows.  `demultiplex` reads a whole response, `StreamDemuxer` a response chunk by chunk.
Both decode frame by frame, and a frame that is complete is the same frame whatever follows, so
the chunks make no difference (`demux_eq_demultiplex`): complete frames come out alike, and of a stream that
ends inside a frame the chunked reader keeps that frame back.
-/
namespace Aoox.DockerFrames
open JsString List

/-! ## Buffers -/

abbrev Buffer := List UInt8

/-- `buf.toString('utf8')`. -/
def toText (buf : Buffer) : JsString := (Utf8.decode buf).flatMap utf16

/-- `buf.subarray(start, end)`. -/
def subarray (buf : Buffer) (start stop : Nat) : Buffer := (buf.take stop).drop start

/-- The number that bytes write, most significant first. -/
def bigEndian (bytes : Buffer) : Nat := bytes.foldl (fun n b => n * 256 + b.toNat) 0

/-- `buf.readUInt32BE(offset)`. -/
def readUInt32BE (buf : Buffer) (offset : Nat) : Nat := bigEndian (subarray buf offset (offset + 4))

/-! ## The two readers -/

/-- One round of the loop of `push`: the payload of a complete frame, and what is behind it. -/
def takeFrame (pending : Buffer) : Option (Buffer × Buffer) :=
  if 8 ≤ pending.length then
    let size := readUInt32BE pending 4
    if pending.length < 8 + size then none
    else some (subarray pending 8 (8 + size), pending.drop (8 + size))
  else none

theorem readUInt32BE_append {a : Buffer} (h : 8 ≤ a.length) (b : Buffer) :
    readUInt32BE (a ++ b) 4 = readUInt32BE a 4 := by
  rw [readUInt32BE, readUInt32BE, subarray, subarray, take_append_of_le_length h]

theorem takeFrame_eq {pending payload rest : Buffer}
    (h : takeFrame pending = some (payload, rest)) :
    8 + readUInt32BE pending 4 ≤ pending.length ∧
      payload = subarray pending 8 (8 + readUInt32BE pending 4) ∧
      rest = pending.drop (8 + readUInt32BE pending 4) := by
  rw [takeFrame] at h
  split at h
  · simp only at h
    split at h
    · cases h
    · rename_i hle
      obtain ⟨rfl, rfl⟩ := Prod.mk.inj (Option.some.inj h)
      exact ⟨Nat.le_of_not_lt hle, rfl, rfl⟩
  · cases h

theorem takeFrame_of_le {pending : Buffer} (h : 8 + readUInt32BE pending 4 ≤ pending.length) :
    takeFrame pending = some (subarray pending 8 (8 + readUInt32BE pending 4),
      pending.drop (8 + readUInt32BE pending 4)) := by
  rw [takeFrame, if_pos (by omega)]
  exact if_neg (by omega)

def frames : Framing.Cutter UInt8 Buffer where
  cut := takeFrame
  shorter h := by
    obtain ⟨hle, -, rfl⟩ := takeFrame_eq h
    rw [List.length_drop]
    omega
  stable b h := by
    obtain ⟨hle, rfl, rfl⟩ := takeFrame_eq h
    rw [takeFrame_of_le]
    · rw [readUInt32BE_append (by omega), subarray, subarray, List.take_append_of_le_length hle,
        List.drop_append_of_le_length hle]
    · rw [readUInt32BE_append (by omega), List.length_append]
      omega

/-- `push`: the text of the complete frames, and what stays pending. -/
def push (pending chunk : Buffer) : JsString × Buffer :=
  let (payloads, rest) := Framing.drain frames (pending ++ chunk)
  (payloads.flatMap toText, rest)

/-- A `StreamDemuxer` that is pushed chunk after chunk: all it has put out, and what is pending. -/
def demux : Buffer → List Buffer → JsString × Buffer
  | pending, [] => ([], pending)
  | pending, chunk :: chunks =>
    let (out, rest) := push pending chunk
    (out ++ (demux rest chunks).1, (demux rest chunks).2)

/-- The loop of `demultiplex` from the position `i` on. -/
def demultiplexFrom (buf : Buffer) (i : Nat) : JsString :=
  if i + 8 ≤ buf.length then
    let size := readUInt32BE buf (i + 4)
    toText (subarray buf (i + 8) (i + 8 + size)) ++ demultiplexFrom buf (i + 8 + size)
  else []
termination_by buf.length - i

/-- Strips the frame headers of a whole response. -/
def demultiplex (buf : Buffer) : JsString := demultiplexFrom buf 0

/-! ## Frames -/

/-- A frame: its stream with three bytes of padding, and a payload the length field can count. -/
structure Frame where
  (kind payload : Buffer)
  kind_length : kind.length = 4
  payload_length : payload.length < 2 ^ 32

/-- The four bytes of a length, most significant first. -/
def lengthBytes (n : Nat) : Buffer :=
  [UInt8.ofNat (n / 2 ^ 24), UInt8.ofNat (n / 2 ^ 16), UInt8.ofNat (n / 2 ^ 8), UInt8.ofNat n]

def Frame.bytes (f : Frame) : Buffer := f.kind ++ lengthBytes f.payload.length ++ f.payload

/-- A stream of complete frames. -/
def wire (fs : List Frame) : Buffer := fs.flatMap Frame.bytes

/-- The beginning of a frame, without its end. -/
def Incomplete (tail : Buffer) : Prop :=
    ∃ (f : Frame) (rest : Buffer), rest ≠ [] ∧ f.bytes = tail ++ rest

/-- The text of complete frames. -/
def textOf (fs : List Frame) : JsString := fs.flatMap fun f => toText f.payload

theorem bigEndian_lengthBytes {n : Nat} (h : n < 2 ^ 32) : bigEndian (lengthBytes n) = n := by
  simp only [bigEndian, lengthBytes, foldl_cons, foldl_nil, UInt8.toNat_ofNat']
  omega

theorem Frame.length_bytes (f : Frame) : f.bytes.length = 8 + f.payload.length := by
  simp [Frame.bytes, lengthBytes, f.kind_length]
  omega

/-- A frame says how long it is. -/
theorem Frame.size (f : Frame) (rest : Buffer) :
    readUInt32BE (f.bytes ++ rest) 4 = f.payload.length := by
  have hsub : subarray (f.bytes ++ rest) 4 8 = lengthBytes f.payload.length := by
    have hk := f.kind_length
    rw [subarray, Frame.bytes, append_assoc, append_assoc, take_append, hk,
      take_of_length_le (by omega), drop_left' hk]
    rfl
  rw [readUInt32BE, hsub, bigEndian_lengthBytes f.payload_length]

theorem Frame.payload_eq (f : Frame) (rest : Buffer) :
    subarray (f.bytes ++ rest) 8 (8 + f.payload.length) = f.payload := by
  have hhead : (f.kind ++ lengthBytes f.payload.length).length = 8 := by
    rw [length_append, f.kind_length]
    rfl
  rw [subarray, take_left' f.length_bytes, Frame.bytes, drop_left' hhead]

/-- **A complete frame is taken off the front.** -/
theorem takeFrame_frame (f : Frame) (rest : Buffer) :
    takeFrame (f.bytes ++ rest) = some (f.payload, rest) := by
  rw [takeFrame_of_le]
  · rw [f.size, f.payload_eq, drop_left' f.length_bytes]
  · rw [f.size, length_append, f.length_bytes]
    omega

theorem takeFrame_incomplete {tail : Buffer} (h : Incomplete tail) : takeFrame tail = none := by
  obtain ⟨f, rest, hne, hf⟩ := h
  cases ht : takeFrame tail with
  | none => rfl
  | some cut =>
    have hwhole := takeFrame_frame f []
    rw [append_nil, hf] at hwhole
    -- what is taken off the beginning is taken off the whole, with the missing end left over
    have hstable := frames.stable rest ht
    have heq := congrArg Prod.snd (Option.some.inj (hstable.symm.trans hwhole))
    exact absurd (append_eq_nil_iff.mp heq).2 hne

/-- **Draining takes the complete frames and leaves the incomplete one.** -/
theorem drain_wire (fs : List Frame) {tail : Buffer} (h : takeFrame tail = none) :
    Framing.drain frames (wire fs ++ tail) = (fs.map Frame.payload, tail) := by
  induction fs with
  | nil => exact Framing.drain_none h
  | cons f fs ih =>
    have hcut : frames.cut (wire (f :: fs) ++ tail) = some (f.payload, wire fs ++ tail) := by
      rw [wire, flatMap_cons, append_assoc]
      exact takeFrame_frame f _
    rw [Framing.drain_some hcut, ih]
    rfl

theorem demultiplexFrom_wire (fs : List Frame) (pre : Buffer) :
    demultiplexFrom (pre ++ wire fs) pre.length = textOf fs := by
  induction fs generalizing pre with
  | nil =>
    rw [demultiplexFrom, if_neg]
    · rfl
    · simp [wire]
  | cons f fs ih =>
    have hwire : wire (f :: fs) = f.bytes ++ wire fs := rfl
    have hsub : ∀ a b, subarray (pre ++ wire (f :: fs)) (pre.length + a) (pre.length + b) =
        subarray (wire (f :: fs)) a b := by
      intro a b
      rw [subarray, subarray, take_length_add_append, drop_length_add_append]
    have hsize : readUInt32BE (pre ++ wire (f :: fs)) (pre.length + 4) = f.payload.length := by
      rw [readUInt32BE, Nat.add_assoc, hsub, hwire]
      exact f.size _
    have hlen := f.length_bytes
    rw [demultiplexFrom, if_pos (by rw [length_append, hwire, length_append]; omega)]
    simp only [hsize]
    rw [Nat.add_assoc, hsub, hwire, f.payload_eq, show pre.length + (8 + f.payload.length) =
      (pre ++ f.bytes).length by rw [length_append, hlen], ← append_assoc, ih]
    rfl

/-! ## Chunks -/

theorem demux_eq (pending : Buffer) (chunks : List Buffer) :
    demux pending chunks = ((Framing.feed frames pending chunks).1.flatMap toText,
      (Framing.feed frames pending chunks).2) := by
  induction chunks generalizing pending with
  | nil => rfl
  | cons chunk chunks ih =>
    simp only [demux, push, Framing.feed, ih, flatMap_append]

/-- The text of the complete frames comes out, and what stays behind is the incomplete one. -/
theorem demux_wire (fs : List Frame) {tail : Buffer} (htail : takeFrame tail = none)
    {chunks : List Buffer} (h : chunks.flatten = wire fs ++ tail) :
    demux [] chunks = (demultiplex (wire fs), tail) := by
  have hwhole := demultiplexFrom_wire fs []
  rw [nil_append] at hwhole
  rw [demux_eq, Framing.feed_eq, h, drain_wire fs htail, demultiplex,
    show 0 = ([] : Buffer).length from rfl, hwhole, textOf, flatMap_map]

/-- **Chunk by chunk as in one piece**: however a stream of complete frames is cut, what comes out
is what `demultiplex` makes of the whole and nothing stays behind; and where the stream ends inside
a frame, the beginning of that frame stays behind and nothing else. -/
theorem demux_eq_demultiplex :
    (∀ (fs : List Frame) (chunks : List Buffer), chunks.flatten = wire fs →
      demux [] chunks = (demultiplex chunks.flatten, [])) ∧
    ∀ (fs : List Frame) (tail : Buffer) (chunks : List Buffer), Incomplete tail →
      chunks.flatten = wire fs ++ tail → demux [] chunks = (demultiplex (wire fs), tail) := by
  constructor
  · intro fs chunks h
    have hnil : takeFrame [] = none := rfl
    rw [h, demux_wire fs hnil (by rw [h, List.append_nil])]
  · intro fs tail chunks htail h
    exact demux_wire fs (takeFrame_incomplete htail) h

def hiFrame : Frame := ⟨[1, 0, 0, 0], [104, 105], rfl, by decide⟩

/-- A frame cut inside its header and inside its payload, alone and with the beginning of another. -/
theorem demux_hi :
    demux [] [[1, 0, 0], [0, 0, 0, 0, 2, 104], [105]] =
        (demultiplex [1, 0, 0, 0, 0, 0, 0, 2, 104, 105], []) ∧
      demux [] [[1, 0, 0], [0, 0, 0, 0, 2, 104], [105, 1, 0]] =
        (demultiplex (wire [hiFrame]), [1, 0]) := by
  refine ⟨demux_eq_demultiplex.1 [hiFrame] _ rfl, ?_⟩
  exact demux_eq_demultiplex.2 [hiFrame] [1, 0] _
    ⟨hiFrame, [0, 0, 0, 0, 0, 2, 104, 105], by simp, rfl⟩ rfl

end Aoox.DockerFrames
