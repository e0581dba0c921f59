import ProjectsCpp.MuduoNet.ProtobufCodecLite

/-! Messages that the balancer passes on without parsing them (`RawMessage` of
`examples/protobuf/rpcbalancer/balancer_raw.cc`). A read outside the message gives `none`. -/

namespace ProjectsCpp.RpcBalancer
open ProjectsCpp.MuduoNet ProjectsCpp.MuduoNet.ProtobufCodecLite

/-- The first two fields of `rpc.proto`, and the others. -/
structure RpcMessage (F : Type) where
  type : UInt8
  id : BitVec 64
  others : F

def htole64 (x : BitVec 64) : List UInt8 :=
  (List.range 8).map fun i => UInt8.ofNat (x.toNat / 256 ^ i)

def le64toh (bytes : List UInt8) : BitVec 64 :=
  BitVec.ofNat 64 (bytes.foldr (fun byte n => byte.toNat + 256 * n) 0)

/-- `loc_` is the place of the id in the message. -/
structure RawMessage where
  message_ : List UInt8
  id_ : BitVec 64
  loc_ : Nat

namespace RawMessage

variable {F : Type} (codec : ProtobufCodecLite (RpcMessage F))

def parse (message : List UInt8) : Option (Option RawMessage) :=
  let bodylen : Int := message.length - kHeaderLen
  let taglen := codec.tag.length
  (codec.validateChecksum message kHeaderLen bodylen).bind fun valid =>
    if valid then (slice message kHeaderLen taglen).bind fun tag =>
      if tag = codec.tag ∧ taglen + 3 + 8 ≤ bodylen then
        (slice message (kHeaderLen + taglen) 3).bind fun p =>
          if p = [0x08, 0x01, 0x11] ∨ p = [0x08, 0x02, 0x11] then
            (slice message (kHeaderLen + taglen + 3) 8).map fun x =>
              some ⟨message, le64toh x, 4 + taglen + 3⟩
          else some none
      else some none
    else some none

def write (message : List UInt8) (offset : Nat) (bytes : List UInt8) : List UInt8 :=
  message.take offset ++ (bytes ++ message.drop (offset + bytes.length))

def updateId (raw : RawMessage) : Option (List UInt8) :=
  let message := write raw.message_ raw.loc_ (htole64 raw.id_)
  let bodylen : Int := message.length - kHeaderLen
  (slice message kHeaderLen (bodylen - kChecksumLen)).map fun body =>
    write message (message.length - 4) (hostToNetwork32 (codec.checksum body))

end RawMessage

theorem length_htole64 (x : BitVec 64) : (htole64 x).length = 8 := rfl

theorem le64toh_htole64 (x : BitVec 64) : le64toh (htole64 x) = x := by
  have value : (htole64 x).foldr (fun byte n => byte.toNat + 256 * n) 0 = x.toNat := by
    have small := x.isLt
    simp [htole64, List.range_succ]
    omega
  rw [le64toh, value, BitVec.ofNat_toNat, BitVec.setWidth_eq]

namespace RawMessage

variable {F : Type} {codec : ProtobufCodecLite (RpcMessage F)}

theorem write_middle (before bytes bytes' after : List UInt8) (offset : Nat)
    (here : offset = before.length) (same : bytes.length = bytes'.length) :
    write (before ++ (bytes ++ after)) offset bytes' = before ++ (bytes' ++ after) := by
  subst here
  rw [write, List.take_left, ← same, ← List.drop_drop, List.drop_left, List.drop_left]

def Layout (codec : ProtobufCodecLite (RpcMessage F)) (others : F → List UInt8) : Prop :=
  ∀ m, codec.serialize m = [0x08, m.type, 0x11] ++ (htole64 m.id ++ others m.others)

theorem frame_parts {others : F → List UInt8} (layout : Layout codec others) (m : RpcMessage F) :
    ∃ sum, codec.frame m = hostToNetwork32 (codec.framedLen m) ++ (codec.tag ++
      ([0x08, m.type, 0x11] ++ (htole64 m.id ++ (others m.others ++ hostToNetwork32 sum)))) ∧
      sum = codec.checksum (codec.body m) := by
  refine ⟨_, ?_, rfl⟩
  rw [frame, body, layout]
  simp only [List.append_assoc]

theorem validate_frame (m : RpcMessage F) :
    codec.validateChecksum (codec.frame m) kHeaderLen (codec.framedLen m) = some true := by
  have bodyLen : (codec.body m).length + 4 = codec.framedLen m := by
    rw [body, List.length_append, framedLen]
  have expected := slice_middle (hostToNetwork32 (codec.framedLen m) ++ codec.body m)
    (hostToNetwork32 (codec.checksum (codec.body m))) [] (kHeaderLen + codec.framedLen m - kChecksumLen) 4
    (by rw [List.length_append, hostToNetwork32_length, kHeaderLen, kChecksumLen]; omega)
    (by rw [hostToNetwork32_length]; rfl)
  have bytes := slice_middle (hostToNetwork32 (codec.framedLen m)) (codec.body m)
    (hostToNetwork32 (codec.checksum (codec.body m))) kHeaderLen (codec.framedLen m - kChecksumLen)
    (by rw [hostToNetwork32_length]; rfl) (by rw [kChecksumLen]; omega)
  rw [List.append_nil, List.append_assoc] at expected
  have summed : codec.checksum (codec.body m) = asInt32 (hostToNetwork32 (codec.checksum (codec.body m))) :=
    (Int.bmod_bmod).symm.trans (asInt32_hostToNetwork32 _).symm
  rw [validateChecksum, frame, expected, bytes, Option.bind_some, Option.map_some, decide_eq_true summed]

theorem parse_frame {others : F → List UInt8} (layout : Layout codec others) {m : RpcMessage F}
    (kind : m.type = 0x01 ∨ m.type = 0x02) :
    parse codec (codec.frame m) = some (some ⟨codec.frame m, m.id, 4 + codec.tag.length + 3⟩) := by
  obtain ⟨sum, parts, -⟩ := frame_parts layout m
  have bodylen : ((codec.frame m).length : Int) - kHeaderLen = codec.framedLen m := by
    rw [frame_length, kHeaderLen]
    omega
  have long : (codec.tag.length : Int) + 3 + 8 ≤ codec.framedLen m := by
    rw [framedLen, layout]
    simp only [List.length_append, length_htole64, List.length_cons, List.length_nil]
    omega
  have tag : slice (codec.frame m) kHeaderLen codec.tag.length = some codec.tag := by
    rw [parts]
    exact slice_middle _ _ _ _ _ (by rw [hostToNetwork32_length]; rfl) rfl
  have field : slice (codec.frame m) (kHeaderLen + codec.tag.length) 3 = some [0x08, m.type, 0x11] := by
    rw [parts, ← List.append_assoc (hostToNetwork32 _)]
    refine slice_middle _ _ _ _ _ ?_ rfl
    rw [List.length_append, hostToNetwork32_length, kHeaderLen]
    omega
  have id : slice (codec.frame m) (kHeaderLen + codec.tag.length + 3) 8 = some (htole64 m.id) := by
    rw [parts, ← List.append_assoc (hostToNetwork32 _), ← List.append_assoc (hostToNetwork32 _ ++ _)]
    refine slice_middle _ _ _ _ _ ?_ (by rw [length_htole64]; rfl)
    simp only [List.length_append, hostToNetwork32_length, kHeaderLen, List.length_cons, List.length_nil]
    omega
  have two : [0x08, m.type, 0x11] = [0x08, 0x01, (0x11 : UInt8)] ∨
      [0x08, m.type, 0x11] = [0x08, 0x02, (0x11 : UInt8)] := by
    rcases kind with request | response
    · exact .inl (by rw [request])
    · exact .inr (by rw [response])
  simp only [parse, bodylen, validate_frame, Option.bind_some, if_true, tag, true_and, if_pos long, field,
    if_pos two, id, Option.map_some, le64toh_htole64]

theorem updateId_frame {others : F → List UInt8} (layout : Layout codec others) (m : RpcMessage F)
    (id : BitVec 64) : updateId codec ⟨codec.frame m, id, 4 + codec.tag.length + 3⟩ =
      some (codec.frame { m with id }) := by
  obtain ⟨sum, parts, -⟩ := frame_parts layout m
  have same : codec.framedLen { m with id } = codec.framedLen m := by
    rw [framedLen, framedLen, layout, layout m]
    simp only [List.length_append, length_htole64]
  have body : codec.body { m with id } =
      codec.tag ++ ([0x08, m.type, 0x11] ++ (htole64 id ++ others m.others)) := by
    rw [ProtobufCodecLite.body, layout]
  have written : write (codec.frame m) (4 + codec.tag.length + 3) (htole64 id) =
      hostToNetwork32 (codec.framedLen m) ++ (codec.body { m with id } ++ hostToNetwork32 sum) := by
    rw [parts, ← List.append_assoc (hostToNetwork32 _), ← List.append_assoc (hostToNetwork32 _ ++ _),
      write_middle _ (htole64 m.id) (htole64 id) _ _ _ rfl, body]
    · simp only [List.append_assoc]
    · simp only [List.length_append, hostToNetwork32_length, List.length_cons, List.length_nil]
  have length : (hostToNetwork32 (codec.framedLen m) ++
      (codec.body { m with id } ++ hostToNetwork32 sum)).length =
        4 + (codec.body { m with id }).length + 4 := by
    simp only [List.length_append, hostToNetwork32_length]
    omega
  have read : slice (hostToNetwork32 (codec.framedLen m) ++
      (codec.body { m with id } ++ hostToNetwork32 sum)) kHeaderLen
        (((4 + (codec.body { m with id }).length + 4 : Nat) : Int) - kHeaderLen - kChecksumLen) =
          some (codec.body { m with id }) := by
    refine slice_middle _ _ _ _ _ (by rw [hostToNetwork32_length]; rfl) ?_
    rw [kHeaderLen, kChecksumLen]
    omega
  rw [updateId]
  simp only [written, length, read, Option.map_some]
  rw [frame, same, ← List.append_assoc, ← List.append_assoc]
  have last := write_middle (hostToNetwork32 (codec.framedLen m) ++ codec.body { m with id })
    (hostToNetwork32 sum) (hostToNetwork32 (codec.checksum (codec.body { m with id }))) []
    (4 + (codec.body { m with id }).length + 4 - 4)
    (by rw [List.length_append, hostToNetwork32_length, Nat.add_sub_cancel])
    (by rw [hostToNetwork32_length, hostToNetwork32_length])
  rw [List.append_nil, List.append_nil] at last
  rw [last]

/-- The balancer may as well pass the bytes on: a message that it takes raw has the id that parsing
gives, and with another id it is, checksum included, what the codec makes of that message. -/
theorem raw_agrees {others : F → List UInt8} (layout : Layout codec others) {m : RpcMessage F}
    (kind : m.type = 0x01 ∨ m.type = 0x02) (short : codec.framedLen m ≤ kMaxMessageLen) :
    ∃ message raw, codec.encode m = some message ∧ parse codec message = some (some raw) ∧
      raw.id_ = m.id ∧ ∀ id, updateId codec { raw with id_ := id } = codec.encode { m with id } := by
  refine ⟨_, _, encode_eq short, parse_frame layout kind, rfl, fun id => ?_⟩
  rw [updateId_frame layout, encode_eq]
  rwa [framedLen, layout] at short ⊢

def rpcCodec : ProtobufCodecLite (RpcMessage (List UInt8)) where
  tag := [82, 80, 67, 48]
  serialize m := [0x08, m.type, 0x11] ++ (htole64 m.id ++ m.others)
  parseFrom data :=
    if data.take 1 = [0x08] ∧ (data.drop 2).take 1 = [0x11] ∧ 11 ≤ data.length then
      (data[1]?).map fun type => ⟨type, le64toh ((data.drop 3).take 8), data.drop 11⟩
    else none
  adler32 := (ofEmptyMessages []).adler32

theorem raw_agrees_response : ∃ message raw, rpcCodec.encode ⟨2, 5, [0x38, 0x03]⟩ = some message ∧
    parse rpcCodec message = some (some raw) ∧ raw.id_ = 5 ∧
      ∀ id, updateId rpcCodec { raw with id_ := id } = rpcCodec.encode ⟨2, id, [0x38, 0x03]⟩ :=
  raw_agrees (show Layout rpcCodec id from fun _ => rfl) (.inr rfl) (by decide)

end RawMessage

end ProjectsCpp.RpcBalancer
