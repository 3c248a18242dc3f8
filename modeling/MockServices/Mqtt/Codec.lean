import Mathlib.Data.List.Infix

/-!
# MQTT packets and topics

Decoders look into a buffer of which the first `size` bytes belong to the
packet; what an earlier packet left behind them stays in the buffer.
-/

namespace MockServices.Mqtt

abbrev Bytes := List UInt8

def ascii (text : String) : Bytes := text.toList.map fun character => character.toNat.toUInt8

inductive PacketType where
  | connect
  | connack
  | publish
  | subscribe
  | suback
  | pingreq
  | pingresp
  | disconnect
  deriving DecidableEq

def PacketType.code : PacketType → UInt8
  | .connect => 1
  | .connack => 2
  | .publish => 3
  | .subscribe => 8
  | .suback => 9
  | .pingreq => 12
  | .pingresp => 13
  | .disconnect => 14

def packetType (header : UInt8) : UInt8 := header >>> 4

def encodeRemainingLength (length : ℕ) : Bytes :=
  let byte := (length % 128).toUInt8
  if length / 128 > 0 then (byte ||| 0x80) :: encodeRemainingLength (length / 128) else [byte]
termination_by length

def framePacket (typeAndFlags : UInt8) (payload : Bytes) : Bytes :=
  typeAndFlags :: encodeRemainingLength payload.length ++ payload

def byteAt (data : Bytes) (index : ℕ) : UInt8 := data.getD index 0

theorem byteAt_eq_getElem {data : Bytes} {index : ℕ} (h : index < data.length) :
    byteAt data index = data[index] := by
  simp [byteAt, h]

/-- Two bytes, the high one first. -/
def wordAt (data : Bytes) (index : ℕ) : ℕ :=
  (byteAt data index).toNat * 256 + (byteAt data (index + 1)).toNat

/-- `std::string::assign` from the middle of the buffer. -/
def assign (data : Bytes) (offset length : ℕ) : Bytes := (data.drop offset).take length

def highByte (word : ℕ) : UInt8 := (word / 256).toUInt8

def lowByte (word : ℕ) : UInt8 := word.toUInt8

structure ConnectPacket where
  clientId : Bytes
  keepalive : ℕ
  flags : UInt8
  deriving DecidableEq

def decodeConnect (data : Bytes) (size : ℕ) : Option ConnectPacket :=
  if size < 10 then none
  else if wordAt data 0 ≠ 4 ∨ assign data 2 4 ≠ ascii "MQTT" then none
  else if byteAt data 6 ≠ 4 then none
  else if 10 + 2 > size then none
  else if 12 + wordAt data 10 > size then none
  else some ⟨assign data 12 (wordAt data 10), wordAt data 8, byteAt data 7⟩

structure PublishPacket where
  topic : Bytes
  payload : Bytes
  deriving DecidableEq

def decodePublish (data : Bytes) (size : ℕ) : Option PublishPacket :=
  if size < 2 then none
  else if wordAt data 0 = 0 then none
  else if 2 + wordAt data 0 > size then none
  else
    let offset := 2 + wordAt data 0
    some ⟨assign data 2 (wordAt data 0), assign data offset (size - offset)⟩

structure SubscribePacket where
  packetId : ℕ
  filters : List (Bytes × UInt8)
  deriving DecidableEq

def decodeFilters (data : Bytes) (size offset : ℕ) : Option (List (Bytes × UInt8)) :=
  if offset < size then
    if offset + 2 > size then none
    else if offset + 2 + wordAt data offset + 1 > size then none
    else
      let filter := assign data (offset + 2) (wordAt data offset)
      let qos := byteAt data (offset + 2 + wordAt data offset)
      (decodeFilters data size (offset + 2 + wordAt data offset + 1)).map ((filter, qos) :: ·)
  else some []
termination_by size - offset

def decodeSubscribe (data : Bytes) (size : ℕ) : Option SubscribePacket :=
  if size < 2 then none
  else (decodeFilters data size 2).map (⟨wordAt data 0, ·⟩)

def encodeConnack : Bytes := framePacket (PacketType.connack.code <<< 4) [0x00, 0x00]

def encodeSuback (packetId : ℕ) (codes : Bytes) : Bytes :=
  framePacket (PacketType.suback.code <<< 4) (highByte packetId :: lowByte packetId :: codes)

def encodePublish (topic payload : Bytes) : Bytes :=
  framePacket (PacketType.publish.code <<< 4)
    (highByte topic.length :: lowByte topic.length :: topic ++ payload)

def encodePingresp : Bytes := [0xD0, 0x00]

def slash : UInt8 := 0x2F

def splitTopicFrom (currentSegment : Bytes) : Bytes → List Bytes
  | [] => [currentSegment]
  | character :: topic =>
      if character = slash then currentSegment :: splitTopicFrom [] topic
      else splitTopicFrom (currentSegment ++ [character]) topic

def splitTopic (topic : Bytes) : List Bytes := splitTopicFrom [] topic

def multiLevel : Bytes := ascii "#"

def singleLevel : Bytes := ascii "+"

def matchSegments : List Bytes → List Bytes → Bool
  | [], [] => true
  | [], _ :: _ => false
  | segment :: _, [] => segment = multiLevel
  | segment :: filter, level :: topic =>
      if segment = multiLevel then true
      else if segment = singleLevel then matchSegments filter topic
      else if segment ≠ level then false
      else matchSegments filter topic

def topicMatches (filter topic : Bytes) : Bool :=
  -- A multi-level wildcard anywhere but at the end spoils the filter.
  if multiLevel ∈ (splitTopic filter).dropLast then false
  else matchSegments (splitTopic filter) (splitTopic topic)

/-- What a packet of the loop asks the broker for. -/
inductive Request where
  | publish (packet : Option PublishPacket)
  | subscribe (packet : Option SubscribePacket)
  | pingreq
  | disconnect
  | unexpected
  deriving DecidableEq

/-- The switch of the packet loop, with the decoder each case starts with. -/
def request (type : UInt8) (data : Bytes) (size : ℕ) : Request :=
  if type = PacketType.publish.code then .publish (decodePublish data size)
  else if type = PacketType.subscribe.code then .subscribe (decodeSubscribe data size)
  else if type = PacketType.pingreq.code then .pingreq
  else if type = PacketType.disconnect.code then .disconnect
  else .unexpected

theorem wordAt_bytes {word : ℕ} (hword : word < 65536) (rest : Bytes) :
    wordAt (highByte word :: lowByte word :: rest) 0 = word := by
  simp only [wordAt, byteAt, List.getD_cons_zero, List.getD_cons_succ, highByte, lowByte,
    UInt8.toNat_ofNat']
  omega

theorem word_lt (high low : UInt8) : high.toNat * 256 + low.toNat < 65536 := by
  have hhigh := high.toNat_lt
  have hlow := low.toNat_lt
  omega

theorem highByte_word (high low : UInt8) : highByte (high.toNat * 256 + low.toNat) = high := by
  have hlow := low.toNat_lt
  have hdiv : (high.toNat * 256 + low.toNat) / 256 = high.toNat := by omega
  rw [highByte, hdiv]
  exact UInt8.ofNat_toNat

theorem lowByte_word (high low : UInt8) : lowByte (high.toNat * 256 + low.toNat) = low := by
  apply UInt8.toNat_inj.mp
  have hlow := low.toNat_lt
  simp only [lowByte, Nat.toUInt8_eq, UInt8.toNat_ofNat']
  omega

/-- Where a two-byte length is covered by what follows, it is the length of
the text that it stands before. -/
theorem bytes_of_length {high low : UInt8} {text : Bytes}
    (h : text.length = high.toNat * 256 + low.toNat) :
    highByte text.length = high ∧ lowByte text.length = low := by
  rw [h]
  exact ⟨highByte_word high low, lowByte_word high low⟩

end MockServices.Mqtt
