import ProjectsCpp.MuduoNet.Buffer
import ProjectsCpp.Lib.Frames
import Mathlib.Algebra.Order.Group.Int
import Mathlib.Algebra.Group.Nat.Defs
import Mathlib.Algebra.Group.Int.Defs

/-! Protobuf messages on a byte stream (`protobuf/ProtobufCodecLite.cc`). What comes of the
protobuf and the zlib library are parameters. An overflow of `int`, a read outside the buffer, a
failing assertion or a loop that does not end gives `none`. -/

namespace ProjectsCpp.MuduoNet
open ProjectsCpp.Frames

def kIntMax : Int := 2 ^ 31 - 1

namespace ProtobufCodecLite

def kHeaderLen : Int := 4

def kChecksumLen : Int := 4

def kMaxMessageLen : Int := 64 * 1024 * 1024

inductive ErrorCode where
  | invalidLength | checkSumError | unknownMessageType | parseError
deriving DecidableEq

/-- The bytes of an `int32_t` in network order. -/
def hostToNetwork32 (x : Int) : List UInt8 :=
  let n := (x % 2 ^ 32).toNat
  [UInt8.ofNat (n / 2 ^ 24), UInt8.ofNat (n / 2 ^ 16), UInt8.ofNat (n / 2 ^ 8), UInt8.ofNat n]

def asInt32 (bytes : List UInt8) : Int :=
  ((bytes.foldl (fun n byte => n * 2 ^ 8 + byte.toNat) 0 : Nat) : Int).bmod (2 ^ 32)

def slice (buf : List UInt8) (offset len : Int) : Option (List UInt8) :=
  if 0 ≤ offset ∧ 0 ≤ len ∧ offset + len ≤ buf.length then
    some ((buf.drop offset.toNat).take len.toNat)
  else none

theorem hostToNetwork32_length (x : Int) : (hostToNetwork32 x).length = 4 := by
  simp only [hostToNetwork32, List.length_cons, List.length_nil]

theorem hostToNetwork32_value (x : Int) :
    (hostToNetwork32 x).foldl (fun n byte => n * 2 ^ 8 + byte.toNat) 0 = (x % 2 ^ 32).toNat := by
  have bound : (x % 2 ^ 32).toNat < 2 ^ 32 := by omega
  simp only [hostToNetwork32, List.foldl_cons, List.foldl_nil, UInt8.toNat_ofNat']
  omega

theorem asInt32_hostToNetwork32 (x : Int) : asInt32 (hostToNetwork32 x) = x.bmod (2 ^ 32) := by
  have bytes : asInt32 (hostToNetwork32 x) = (((x % 2 ^ 32).toNat : Nat) : Int).bmod (2 ^ 32) :=
    congrArg (fun n : Nat => (n : Int).bmod (2 ^ 32)) (hostToNetwork32_value x)
  rw [bytes, Int.toNat_of_nonneg (Int.emod_nonneg x (by decide))]
  exact Int.emod_bmod x (2 ^ 32)

theorem slice_middle (before bytes after : List UInt8) (offset len : Int)
    (here : offset = before.length) (long : len = bytes.length) :
    slice (before ++ (bytes ++ after)) offset len = some bytes := by
  subst here long
  rw [slice, if_pos (by simp)]
  simp

theorem slice_isSome (buf : List UInt8) (offset len : Int) (start : 0 ≤ offset) (long : 0 ≤ len)
    (inside : offset + len ≤ buf.length) : ∃ bytes, slice buf offset len = some bytes :=
  ⟨_, if_pos ⟨start, long, inside⟩⟩

end ProtobufCodecLite

/-- A codec for messages `M`: `serialize` stands for `SerializeWithCachedSizesToArray`, whose
length is the byte size of the message, `parseFrom` for `ParseFromArray`, `adler32` for the value
for the given bytes. -/
structure ProtobufCodecLite (M : Type) where
  tag : List UInt8
  serialize : M → List UInt8
  parseFrom : List UInt8 → Option M
  adler32 : List UInt8 → UInt32

namespace ProtobufCodecLite
variable {M : Type} (codec : ProtobufCodecLite M)

def kMinMessageLen : Option Int :=
  if codec.tag.length + kChecksumLen ≤ kIntMax then some (codec.tag.length + kChecksumLen) else none

def checksum (bytes : List UInt8) : Int := ((codec.adler32 bytes).toNat : Int).bmod (2 ^ 32)

def serializeToBuffer (message : M) (buf : Buffer) : Option Buffer :=
  let byteSize := (codec.serialize message).length
  if byteSize + kChecksumLen ≤ kIntMax then
    (buf.ensureWritableBytes (byteSize + 4)).bind fun buf => buf.write (codec.serialize message)
  else none

def fillEmptyBuffer (buf : Buffer) (message : M) : Option Buffer :=
  if buf.readable = [] then
    (buf.append codec.tag).bind fun buf => (codec.serializeToBuffer message buf).bind fun buf =>
      (buf.append (hostToNetwork32 (codec.checksum buf.readable))).bind fun buf =>
        if buf.readableBytes = codec.tag.length + (codec.serialize message).length + 4 then
          buf.prepend (hostToNetwork32 buf.readableBytes)
        else none
  else none

/-- `validateChecksum` of `len` bytes from `offset` on. -/
def validateChecksum (buf : List UInt8) (offset len : Int) : Option Bool :=
  (slice buf (offset + len - kChecksumLen) 4).bind fun expected =>
    (slice buf offset (len - kChecksumLen)).map fun bytes => codec.checksum bytes = asInt32 expected

def parse (buf : List UInt8) (offset len : Int) : Option (Except ErrorCode M) :=
  (codec.validateChecksum buf offset len).bind fun valid =>
    if valid then
      (slice buf offset codec.tag.length).bind fun tag =>
        if tag = codec.tag then
          (slice buf (offset + codec.tag.length) (len - kChecksumLen - codec.tag.length)).map fun data =>
            match codec.parseFrom data with
            | some message => .ok message
            | none => .error .parseError
        else some (.error .unknownMessageType)
    else some (.error .checkSumError)

/-- The receiving side: the input buffer, and what the two callbacks have been called with. -/
structure Receiver (M : Type) where
  input : List UInt8
  messages : List M
  errors : List ErrorCode

def Receiver.new : Receiver M := ⟨[], [], []⟩

variable (rawCb : Option (List UInt8 → Bool))

/-- The loop of `onMessage`, for so many rounds. -/
def onMessageLoop (minLen : Int) : Nat → Receiver M → Option (Receiver M)
  | 0, _ => none
  | rounds + 1, r =>
    if kIntMax < minLen + kHeaderLen then none
    else if minLen + kHeaderLen ≤ r.input.length then
      (slice r.input 0 4).bind fun prefix_ =>
        let len := asInt32 prefix_
        if kMaxMessageLen < len ∨ len < minLen then
          some { r with errors := r.errors ++ [.invalidLength] }
        else if kHeaderLen + len ≤ r.input.length then
          (slice r.input 0 (kHeaderLen + len)).bind fun raw =>
            if (rawCb.any fun cb => !cb raw) then
              onMessageLoop minLen rounds { r with input := r.input.drop (kHeaderLen + len).toNat }
            else
              (codec.parse r.input kHeaderLen len).bind fun
                | .ok message => onMessageLoop minLen rounds { r with
                    input := r.input.drop (kHeaderLen + len).toNat
                    messages := r.messages ++ [message] }
                | .error code => some { r with errors := r.errors ++ [code] }
        else some r
    else some r

/-- `onMessage`, when the bytes have been read into the buffer; a round that does not end the
loop takes at least eight bytes out of it. -/
def onMessage (r : Receiver M) (bytes : List UInt8) : Option (Receiver M) :=
  codec.kMinMessageLen.bind fun minLen =>
    codec.onMessageLoop rawCb minLen ((r.input ++ bytes).length + 1) { r with input := r.input ++ bytes }

def onMessages (r : Receiver M) (chunks : List (List UInt8)) : Option (Receiver M) :=
  chunks.foldlM (codec.onMessage rawCb) r

/-- What `fillEmptyBuffer` puts into a new buffer. -/
def encode (message : M) : Option (List UInt8) :=
  (codec.fillEmptyBuffer .new message).map Buffer.readable

def framedLen (message : M) : Nat := codec.tag.length + (codec.serialize message).length + 4

def Decodes : Prop :=
  ∀ messages : List M, (∀ m ∈ messages, codec.framedLen m ≤ kMaxMessageLen) →
    ∃ encodings, messages.mapM codec.encode = some encodings ∧
      ∀ chunks : List (List UInt8), chunks.flatten = encodings.flatten →
        codec.onMessages none .new chunks = some ⟨[], messages, []⟩

def Total : Prop :=
  ∀ (rawCb : Option (List UInt8 → Bool)) (chunks : List (List UInt8)),
    ∃ r, codec.onMessages rawCb .new chunks = some r

def Framing : Prop := codec.Decodes ∧ codec.Total

/-! ### The encoding -/

def body (message : M) : List UInt8 := codec.tag ++ codec.serialize message

def frame (message : M) : List UInt8 :=
  hostToNetwork32 (codec.framedLen message) ++
    (codec.body message ++ hostToNetwork32 (codec.checksum (codec.body message)))

variable {codec}

theorem frame_length (message : M) : (codec.frame message).length = 4 + codec.framedLen message := by
  simp only [frame, body, framedLen, List.length_append, hostToNetwork32_length]

theorem encode_eq {message : M} (short : codec.framedLen message ≤ kMaxMessageLen) :
    codec.encode message = some (codec.frame message) := by
  have fits : ((codec.serialize message).length : Int) + kChecksumLen ≤ kIntMax := by
    rw [framedLen, kMaxMessageLen] at short
    rw [kChecksumLen, kIntMax]
    omega
  obtain ⟨b₁, tagged, bytes₁, front₁⟩ := Buffer.append_some (b := .new) (Nat.le_refl _) codec.tag
  obtain ⟨b₂, room, bytes₂, front₂, wide⟩ :=
    Buffer.ensureWritableBytes_some front₁ ((codec.serialize message).length + 4)
  obtain ⟨b₃, written, bytes₃, front₃⟩ :=
    Buffer.write_some (codec.serialize message) (Nat.le_trans (Nat.le_add_right _ 4) wide)
  have whole : b₃.readable = codec.body message := by
    rw [bytes₃, bytes₂, bytes₁]
    rfl
  obtain ⟨b₄, summed, bytes₄, front₄⟩ := Buffer.append_some (b := b₃) (by rwa [front₃])
    (hostToNetwork32 (codec.checksum (codec.body message)))
  have long : b₄.readableBytes = codec.framedLen message := by
    rw [Buffer.readableBytes, bytes₄, whole, List.length_append, hostToNetwork32_length, body,
      List.length_append, framedLen]
  have whole₄ : b₄.readableBytes = codec.tag.length + (codec.serialize message).length + 4 := long
  obtain ⟨b₅, prepended, bytes₅⟩ := Buffer.prepend_some front₄
    (hostToNetwork32 (codec.framedLen message))
    (by rw [hostToNetwork32_length]; decide)
  have filled : codec.fillEmptyBuffer .new message = some b₅ := by
    rw [fillEmptyBuffer, if_pos (by rfl), tagged, Option.bind_some, serializeToBuffer, if_pos fits,
      room, Option.bind_some, written, Option.bind_some, whole, summed, Option.bind_some,
      if_pos whole₄, long, prepended]
  rw [encode, filled, Option.map_some, bytes₅, bytes₄, whole, frame]

/-! ### Decoding -/

theorem kMinMessageLen_eq (short : codec.tag.length + 8 ≤ kIntMax) :
    codec.kMinMessageLen = some ((codec.tag.length : Int) + 4) := by
  rw [kMinMessageLen, if_pos (by rw [kChecksumLen]; omega), kChecksumLen]

theorem parse_frame (roundTrip : ∀ m, codec.parseFrom (codec.serialize m) = some m) (message : M)
    (rest : List UInt8) :
    codec.parse (codec.frame message ++ rest) kHeaderLen (codec.framedLen message) =
      some (.ok message) := by
  have size := codec.frame_length message
  have split : codec.frame message ++ rest = hostToNetwork32 (codec.framedLen message) ++
      (codec.body message ++ (hostToNetwork32 (codec.checksum (codec.body message)) ++ rest)) := by
    simp only [frame, List.append_assoc]
  have bodyLen : (codec.body message).length + 4 = codec.framedLen message := by
    rw [body, List.length_append, framedLen]
  have valid : codec.validateChecksum (codec.frame message ++ rest) kHeaderLen
      (codec.framedLen message) = some true := by
    have expected := slice_middle (hostToNetwork32 (codec.framedLen message) ++ codec.body message)
      (hostToNetwork32 (codec.checksum (codec.body message))) rest
      (kHeaderLen + codec.framedLen message - kChecksumLen) 4
      (by rw [List.length_append, hostToNetwork32_length, kHeaderLen, kChecksumLen]; omega)
      (by rw [hostToNetwork32_length]; rfl)
    have bytes := slice_middle (hostToNetwork32 (codec.framedLen message)) (codec.body message)
      (hostToNetwork32 (codec.checksum (codec.body message)) ++ rest)
      kHeaderLen (codec.framedLen message - kChecksumLen)
      (by rw [hostToNetwork32_length]; rfl)
      (by rw [kChecksumLen]; omega)
    rw [List.append_assoc] at expected
    have summed : codec.checksum (codec.body message) =
        asInt32 (hostToNetwork32 (codec.checksum (codec.body message))) :=
      (Int.bmod_bmod).symm.trans (asInt32_hostToNetwork32 _).symm
    rw [validateChecksum, split, expected, bytes, Option.bind_some, Option.map_some,
      decide_eq_true summed]
  have tagged := slice_middle (hostToNetwork32 (codec.framedLen message)) codec.tag
    (codec.serialize message ++ (hostToNetwork32 (codec.checksum (codec.body message)) ++ rest))
    kHeaderLen (codec.tag.length) (by rw [hostToNetwork32_length]; rfl) rfl
  have data := slice_middle (hostToNetwork32 (codec.framedLen message) ++ codec.tag)
    (codec.serialize message) (hostToNetwork32 (codec.checksum (codec.body message)) ++ rest)
    (kHeaderLen + codec.tag.length)
    (codec.framedLen message - kChecksumLen - codec.tag.length)
    (by rw [List.length_append, hostToNetwork32_length, kHeaderLen]; omega)
    (by rw [kChecksumLen, framedLen]; omega)
  rw [List.append_assoc] at data
  have pieces : codec.frame message ++ rest = hostToNetwork32 (codec.framedLen message) ++
      (codec.tag ++ (codec.serialize message ++
        (hostToNetwork32 (codec.checksum (codec.body message)) ++ rest))) :=
    split.trans (congrArg _ (List.append_assoc codec.tag (codec.serialize message) _))
  rw [parse, valid, Option.bind_some, if_pos rfl, pieces, tagged, Option.bind_some, if_pos rfl, data,
    Option.map_some, roundTrip]

theorem onMessageLoop_frame (roundTrip : ∀ m, codec.parseFrom (codec.serialize m) = some m)
    (short : codec.tag.length + 8 ≤ kIntMax) {message : M}
    (framed : codec.framedLen message ≤ kMaxMessageLen) (rounds : Nat) (rest : List UInt8)
    (messages : List M) :
    codec.onMessageLoop none (codec.tag.length + 4) (rounds + 1)
        ⟨codec.frame message ++ rest, messages, []⟩ =
      codec.onMessageLoop none (codec.tag.length + 4) rounds ⟨rest, messages ++ [message], []⟩ := by
  have size := codec.frame_length message
  have long : (codec.frame message ++ rest).length = 4 + codec.framedLen message + rest.length := by
    rw [List.length_append, size]
  have least : codec.tag.length + 4 ≤ codec.framedLen message := by
    rw [framedLen]
    omega
  have len : asInt32 (hostToNetwork32 (codec.framedLen message)) = codec.framedLen message := by
    rw [kMaxMessageLen] at framed
    rw [asInt32_hostToNetwork32]
    exact Int.bmod_eq_of_le (by omega) (by omega)
  have head : slice (codec.frame message ++ rest) 0 4 =
      some (hostToNetwork32 (codec.framedLen message)) := by
    rw [frame, List.append_assoc]
    exact slice_middle [] (hostToNetwork32 _) _ 0 4 rfl (by rw [hostToNetwork32_length]; rfl)
  have raw : slice (codec.frame message ++ rest) 0 (kHeaderLen + codec.framedLen message) =
      some (codec.frame message) := by
    rw [kHeaderLen]
    exact slice_middle [] (codec.frame message) rest 0 _ rfl (by rw [size]; rfl)
  have left : (codec.frame message ++ rest).drop (kHeaderLen + codec.framedLen message).toNat = rest := by
    have taken : (kHeaderLen + codec.framedLen message).toNat = (codec.frame message).length := by
      rw [size, kHeaderLen]
      omega
    rw [taken, List.drop_left]
  have enough : (codec.tag.length : Int) + 4 + kHeaderLen ≤ (codec.frame message ++ rest).length := by
    rw [long, kHeaderLen]
    omega
  have whole : kHeaderLen + (codec.framedLen message : Int) ≤ (codec.frame message ++ rest).length := by
    rw [long, kHeaderLen]
    omega
  have valid : ¬ (kMaxMessageLen < (codec.framedLen message : Int) ∨
      (codec.framedLen message : Int) < codec.tag.length + 4) := by omega
  rw [onMessageLoop, if_neg (by rw [kHeaderLen]; omega), if_pos enough, head, Option.bind_some]
  simp only [len, if_neg valid, if_pos whole, raw, Option.bind_some, Option.any_none,
    Bool.false_eq_true, if_false, parse_frame roundTrip, left]

theorem onMessageLoop_part (short : codec.tag.length + 8 ≤ kIntMax) {tail : List UInt8}
    {after : List M} (framed : ∀ m ∈ after, codec.framedLen m ≤ kMaxMessageLen)
    (part : Part codec.frame tail after) (rounds : Nat) (messages : List M) :
    codec.onMessageLoop none (codec.tag.length + 4) (rounds + 1) ⟨tail, messages, []⟩ =
      some ⟨tail, messages, []⟩ := by
  rw [onMessageLoop, if_neg (by rw [kHeaderLen]; omega)]
  by_cases enough : (codec.tag.length : Int) + 4 + kHeaderLen ≤ tail.length
  · cases after with
    | nil =>
      rw [part, kHeaderLen, List.length_nil] at enough
      omega
    | cons message after =>
      have framed := framed message List.mem_cons_self
      obtain ⟨⟨rest, complete⟩, cut⟩ := part
      have size := codec.frame_length message
      have len : asInt32 (hostToNetwork32 (codec.framedLen message)) = codec.framedLen message := by
        rw [kMaxMessageLen] at framed
        rw [asInt32_hostToNetwork32]
        exact Int.bmod_eq_of_le (by omega) (by omega)
      have head : slice tail 0 4 = some (hostToNetwork32 (codec.framedLen message)) := by
        have four : 4 ≤ tail.length := by
          rw [kHeaderLen] at enough
          omega
        have same : tail.take 4 = hostToNetwork32 (codec.framedLen message) := by
          have begins := congrArg (List.take 4) complete
          rw [List.take_append_of_le_length four, frame,
            List.take_left' (hostToNetwork32_length _)] at begins
          exact begins
        rw [slice, if_pos ⟨Int.le_refl 0, by omega, by omega⟩]
        exact congrArg some same
      have valid : ¬ (kMaxMessageLen < (codec.framedLen message : Int) ∨
          (codec.framedLen message : Int) < codec.tag.length + 4) := by
        rw [framedLen] at framed ⊢
        omega
      have missing : ¬ kHeaderLen + (codec.framedLen message : Int) ≤ tail.length := by
        rw [kHeaderLen]
        omega
      rw [if_pos enough, head, Option.bind_some]
      simp only [len, if_neg valid, if_neg missing]
  · rw [if_neg enough]

theorem onMessageLoop_frames (roundTrip : ∀ m, codec.parseFrom (codec.serialize m) = some m)
    (short : codec.tag.length + 8 ≤ kIntMax) {before after : List M} {tail : List UInt8}
    (framed : ∀ m ∈ before ++ after, codec.framedLen m ≤ kMaxMessageLen)
    (part : Part codec.frame tail after) {rounds : Nat}
    (enough : (before.flatMap codec.frame ++ tail).length < rounds) (messages : List M) :
    codec.onMessageLoop none (codec.tag.length + 4) rounds
        ⟨before.flatMap codec.frame ++ tail, messages, []⟩ =
      some ⟨tail, messages ++ before, []⟩ := by
  induction before generalizing rounds messages with
  | nil =>
    obtain ⟨rounds, rfl⟩ := Nat.exists_eq_succ_of_ne_zero (Nat.ne_of_gt (Nat.zero_lt_of_lt enough))
    rw [List.append_nil]
    exact onMessageLoop_part short framed part rounds messages
  | cons m before ih =>
    obtain ⟨rounds, rfl⟩ := Nat.exists_eq_succ_of_ne_zero (Nat.ne_of_gt (Nat.zero_lt_of_lt enough))
    rw [List.flatMap_cons, List.append_assoc] at enough ⊢
    rw [List.length_append, frame_length] at enough
    rw [onMessageLoop_frame roundTrip short (framed m List.mem_cons_self),
      ih (fun m member => framed m (List.mem_cons_of_mem _ member)) (by omega), List.append_assoc]
    rfl

theorem decodes (roundTrip : ∀ m, codec.parseFrom (codec.serialize m) = some m)
    (short : codec.tag.length + 8 ≤ kIntMax) : codec.Decodes := by
  intro messages framed
  refine ⟨messages.map codec.frame, ?_, ?_⟩
  · induction messages with
    | nil => rfl
    | cons m messages ih =>
      rw [List.mapM_cons, encode_eq (framed m List.mem_cons_self),
        ih fun m member => framed m (List.mem_cons_of_mem _ member)]
      rfl
  · intro chunks stream
    have reads : ∀ done before after tail tail' chunk (r : Receiver M), r = ⟨tail, done, []⟩ →
        tail ++ chunk = before.flatMap codec.frame ++ tail' → Part codec.frame tail' after →
        (∀ m ∈ before ++ after, codec.framedLen m ≤ kMaxMessageLen) →
        ∃ r', codec.onMessage none r chunk = some r' ∧ r' = ⟨tail', done ++ before, []⟩ := by
      intro done before after tail tail' chunk r here whole part framed
      refine ⟨_, ?_, rfl⟩
      rw [here, onMessage, kMinMessageLen_eq short, Option.bind_some]
      simp only [whole]
      exact onMessageLoop_frames roundTrip short framed part (Nat.lt_succ_self _) done
    have start : Part codec.frame [] messages := by
      cases messages with
      | nil => rfl
      | cons m messages => exact ⟨List.nil_prefix, by rw [frame_length, List.length_nil]; omega⟩
    obtain ⟨r, run, rfl⟩ := run_frames reads (rfl : (.new : Receiver M) = ⟨[], [], []⟩)
      (by rw [List.nil_append, stream, List.flatMap_def]) framed start
    exact run

/-! ### Any bytes at all -/

theorem parse_isSome {buf : List UInt8} {len : Int} (least : codec.tag.length + 4 ≤ len)
    (inside : kHeaderLen + len ≤ buf.length) : ∃ result, codec.parse buf kHeaderLen len = some result := by
  rw [kHeaderLen] at inside
  obtain ⟨expected, read⟩ := slice_isSome buf (kHeaderLen + len - kChecksumLen)
    4 (by rw [kHeaderLen, kChecksumLen]; omega) (by omega)
    (by rw [kHeaderLen, kChecksumLen]; omega)
  obtain ⟨bytes, read'⟩ := slice_isSome buf kHeaderLen
    (len - kChecksumLen) (by decide) (by rw [kChecksumLen]; omega)
    (by rw [kHeaderLen, kChecksumLen]; omega)
  obtain ⟨tag, tagged⟩ := slice_isSome buf kHeaderLen
    (codec.tag.length) (by decide) (by omega) (by rw [kHeaderLen]; omega)
  obtain ⟨data, rest⟩ := slice_isSome buf (kHeaderLen + codec.tag.length)
    (len - kChecksumLen - codec.tag.length) (by rw [kHeaderLen]; omega)
    (by rw [kChecksumLen]; omega) (by rw [kHeaderLen, kChecksumLen]; omega)
  rw [parse, validateChecksum, read, Option.bind_some, read', Option.map_some, Option.bind_some]
  by_cases valid : codec.checksum bytes = asInt32 expected
  · rw [decide_eq_true valid, if_pos rfl, tagged, Option.bind_some, rest]
    by_cases same : tag = codec.tag
    · exact ⟨_, if_pos same⟩
    · exact ⟨_, if_neg same⟩
  · exact ⟨_, by rw [decide_eq_false valid, if_neg Bool.false_ne_true]⟩

theorem onMessageLoop_isSome (short : codec.tag.length + 8 ≤ kIntMax)
    (rawCb : Option (List UInt8 → Bool)) {rounds : Nat} {r : Receiver M}
    (enough : r.input.length < rounds) :
    ∃ r', codec.onMessageLoop rawCb (codec.tag.length + 4) rounds r = some r' := by
  induction rounds generalizing r with
  | zero => exact absurd enough (Nat.not_lt_zero _)
  | succ rounds ih =>
    rw [onMessageLoop, if_neg (by rw [kHeaderLen]; omega)]
    by_cases header : (codec.tag.length : Int) + 4 + kHeaderLen ≤ r.input.length
    · obtain ⟨start, read⟩ := slice_isSome r.input 0 4 (by omega)
        (by omega) (by rw [kHeaderLen] at header; omega)
      rw [if_pos header, read, Option.bind_some]
      generalize asInt32 start = len
      by_cases invalid : kMaxMessageLen < len ∨ len < codec.tag.length + 4
      · exact ⟨_, if_pos invalid⟩
      · have least : codec.tag.length + 4 ≤ len := by omega
        simp only [if_neg invalid]
        by_cases whole : kHeaderLen + len ≤ r.input.length
        · obtain ⟨raw, read'⟩ := slice_isSome r.input 0
            (kHeaderLen + len) (by omega) (by rw [kHeaderLen]; omega) (by omega)
          obtain ⟨result, parsed⟩ := parse_isSome least whole
          have less : (r.input.drop (kHeaderLen + len).toNat).length < rounds := by
            rw [List.length_drop, kHeaderLen]
            rw [kHeaderLen] at whole
            omega
          rw [if_pos whole, read', Option.bind_some, parsed]
          by_cases refused : (rawCb.any fun cb => !cb raw) = true
          · rw [if_pos refused]
            exact ih (r := { r with input := r.input.drop (kHeaderLen + len).toNat }) less
          · rw [if_neg refused, Option.bind_some]
            cases result with
            | ok message =>
              exact ih (r := ⟨r.input.drop (kHeaderLen + len).toNat,
                r.messages ++ [message], r.errors⟩) less
            | error code => exact ⟨_, rfl⟩
        · exact ⟨_, if_neg whole⟩
    · exact ⟨_, if_neg header⟩

theorem total (short : codec.tag.length + 8 ≤ kIntMax) : codec.Total := by
  intro rawCb chunks
  rw [onMessages]
  generalize Receiver.new = r
  induction chunks generalizing r with
  | nil => exact ⟨r, rfl⟩
  | cons bytes chunks ih =>
    obtain ⟨r₁, first⟩ := onMessageLoop_isSome short rawCb
      (r := { r with input := r.input ++ bytes }) (Nat.lt_succ_self _)
    obtain ⟨r', others⟩ := ih r₁
    refine ⟨r', ?_⟩
    rw [List.foldlM_cons, onMessage, kMinMessageLen_eq short, Option.bind_some, first]
    exact others

theorem onMessage_none (wide : kIntMax < codec.tag.length + 8) (rawCb : Option (List UInt8 → Bool))
    (r : Receiver M) (bytes : List UInt8) : codec.onMessage rawCb r bytes = none := by
  rw [onMessage, kMinMessageLen]
  by_cases fits : codec.tag.length + kChecksumLen ≤ kIntMax
  · rw [if_pos fits]
    have wide : kIntMax < codec.tag.length + kChecksumLen + kHeaderLen := by
      rw [kChecksumLen, kHeaderLen]
      omega
    exact if_pos wide
  · rw [if_neg fits]
    rfl

/-- The messages come out as they went in, and every stream is read inside the buffer, exactly for
the tags with which the length of the shortest frame fits an `int`. -/
theorem framing_iff (codec : ProtobufCodecLite M)
    (roundTrip : ∀ m, codec.parseFrom (codec.serialize m) = some m) :
    codec.Framing ↔ codec.tag.length + 8 ≤ kIntMax := by
  constructor
  · intro framing
    by_contra wide
    obtain ⟨r, run⟩ := framing.2 none [[]]
    rw [onMessages, List.foldlM_cons, onMessage_none (Int.lt_of_not_ge wide)] at run
    exact nomatch run
  · intro short
    exact ⟨decodes roundTrip short, total short⟩

def ofEmptyMessages (tag : List UInt8) : ProtobufCodecLite Unit where
  tag := tag
  serialize _ := []
  parseFrom data := if data = [] then some () else none
  adler32 bytes :=
    let sums := bytes.foldl (fun sums byte =>
      ((sums.1 + byte.toNat) % 65521, (sums.2 + sums.1 + byte.toNat) % 65521)) (1, 0)
    UInt32.ofNat (sums.2 * 2 ^ 16 + sums.1)

theorem framing_rpc0 : (ofEmptyMessages [82, 80, 67, 48]).Framing :=
  (framing_iff (ofEmptyMessages [82, 80, 67, 48]) fun _ => rfl).mpr (by decide)

theorem not_framing_longTag : ¬ (ofEmptyMessages (List.replicate (2 ^ 31 - 4) 0)).Framing := by
  intro framing
  have wide : kIntMax < (ofEmptyMessages (List.replicate (2 ^ 31 - 4) 0)).tag.length + 8 := by
    rw [ofEmptyMessages, List.length_replicate, kIntMax]
    decide
  obtain ⟨r, run⟩ := framing.2 none [[]]
  rw [onMessages, List.foldlM_cons, onMessage_none wide] at run
  exact nomatch run

example : (ofEmptyMessages [82, 80, 67, 48]).encode () =
    some [0, 0, 0, 8, 82, 80, 67, 48, 2, 242, 1, 22] := by decide +kernel

end ProtobufCodecLite

end ProjectsCpp.MuduoNet
