import Mathlib.Tactic.Ring
import Mathlib.Tactic.NormNum
import MockServices.Foundations.Numeral
import MockServices.Foundations.Reader
import MockServices.Mqtt.Codec

/-!
# Framing

The packet reader of the broker against `framePacket`. A remaining length
below `128 ^ 4` fits the four length bytes, so the frames form a prefix
code and the laws of readers apply to whole streams.
-/

namespace MockServices.Mqtt

open Foundations Reader

def recvByte : Reader UInt8 UInt8 := do
  let got ← recvExact 1
  return byteAt got 0

def readRemainingLengthFrom : ℕ → ℕ → ℕ → Reader UInt8 ℕ
  | 0, _, _ => .fail
  | bytesLeft + 1, multiplier, outLength => do
      let byte ← recvByte
      let outLength := outLength + (byte &&& 0x7F).toNat * multiplier
      if byte &&& 0x80 = 0 then return outLength
      else readRemainingLengthFrom bytesLeft (multiplier * 128) outLength

def readRemainingLength : Reader UInt8 ℕ := readRemainingLengthFrom 4 1 0

/-- A packet of the loop: the header byte and the body. -/
abbrev Packet := UInt8 × Bytes

def readPacket : Reader UInt8 Packet := do
  let header ← recvByte
  let remainingLength ← readRemainingLength
  let body ← if remainingLength > 0 then recvExact remainingLength else pure []
  return (header, body)

def frame (packet : Packet) : Bytes := framePacket packet.1 packet.2

@[simp] theorem parse_recvByte_nil : recvByte.parse [] = none := rfl

@[simp] theorem parse_recvByte_cons (byte : UInt8) (rest : Bytes) :
    recvByte.parse (byte :: rest) = some (byte, rest) := by
  simp [recvByte, parse_bind, byteAt]

theorem continued_byte : ∀ digit < 128,
    ((digit.toUInt8 ||| 0x80) &&& 0x7F).toNat = digit ∧
      (digit.toUInt8 ||| 0x80) &&& 0x80 ≠ 0 := by
  decide +kernel

theorem final_byte : ∀ digit < 128,
    (digit.toUInt8 &&& 0x7F).toNat = digit ∧ digit.toUInt8 &&& 0x80 = 0 := by
  decide +kernel

theorem low_bits_le (byte : UInt8) : (byte &&& 0x7F).toNat ≤ 127 := by
  rw [UInt8.toNat_and]
  exact Nat.and_le_right

theorem length_byte : ∀ digit < 128, ∀ m : Bool,
    let byte := if m then digit.toUInt8 ||| 0x80 else digit.toUInt8
    (byte &&& 0x7F).toNat = digit ∧ decide (byte &&& 0x80 ≠ 0) = m := by
  intro digit hdigit m
  cases m with
  | false =>
      obtain ⟨hvalue, hflag⟩ := final_byte digit hdigit
      exact ⟨hvalue, decide_eq_false fun h => h hflag⟩
  | true =>
      obtain ⟨hvalue, hflag⟩ := continued_byte digit hdigit
      exact ⟨hvalue, decide_eq_true hflag⟩

theorem length_byte_eq : ∀ byte < 256,
    (if decide (byte.toUInt8 &&& 0x80 ≠ 0) then (byte.toUInt8 &&& 0x7F).toNat.toUInt8 ||| 0x80
      else (byte.toUInt8 &&& 0x7F).toNat.toUInt8) = byte.toUInt8 := by
  decide +kernel

def lengthBytes : Digits UInt8 where
  base := 128
  digit byte := (byte &&& 0x7F).toNat
  more byte := byte &&& 0x80 ≠ 0
  symbol m digit := if m then digit.toUInt8 ||| 0x80 else digit.toUInt8
  one_lt_base := by decide
  digit_lt byte := Nat.lt_succ_of_le (low_bits_le byte)
  digit_symbol m digit hdigit := (length_byte digit hdigit m).1
  more_symbol m digit hdigit := (length_byte digit hdigit m).2
  symbol_digit byte := by
    have hbyte := length_byte_eq byte.toNat byte.toNat_lt
    rwa [Nat.toUInt8_eq, UInt8.ofNat_toNat] at hbyte

theorem encodeRemainingLength_eq (length : ℕ) :
    encodeRemainingLength length = lengthBytes.spelling length := by
  induction length using Nat.strongRecOn with
  | ind length ih =>
      rw [encodeRemainingLength, Digits.spelling]
      by_cases hmore : length / 128 > 0
      · have hdiv : ¬ length / lengthBytes.base = 0 := Nat.ne_of_gt hmore
        rw [if_pos hmore, if_neg hdiv, ih _ (by omega)]
        rfl
      · have hdiv : length / lengthBytes.base = 0 := Nat.eq_zero_of_not_pos hmore
        rw [if_neg hmore, if_pos hdiv]
        rfl

/-- The multiplier weighs the bytes that are still to come. -/
theorem parse_readRemainingLengthFrom (bytesLeft multiplier outLength : ℕ) (xs : Bytes) :
    (readRemainingLengthFrom bytesLeft multiplier outLength).parse xs =
      (lengthBytes.scan bytesLeft xs).map fun r => (outLength + multiplier * r.1, r.2) := by
  induction bytesLeft generalizing multiplier outLength xs with
  | zero => rfl
  | succ bytesLeft ih =>
      cases xs with
      | nil => rfl
      | cons byte xs =>
          rw [readRemainingLengthFrom, parse_bind, parse_recvByte_cons, Option.bind_some,
            Digits.scan]
          dsimp only
          by_cases hlast : byte &&& 0x80 = 0
          · have hmore : lengthBytes.more byte = false := decide_eq_false (not_not.mpr hlast)
            rw [if_pos hlast, hmore, if_neg Bool.false_ne_true, parse_pure, Option.map_some,
              mul_comm]
            rfl
          · have hmore : lengthBytes.more byte = true := decide_eq_true hlast
            rw [if_neg hlast, hmore, if_pos rfl, ih, Option.map_map]
            congr 1
            funext r
            have hweigh : outLength + (byte &&& 0x7F).toNat * multiplier + multiplier * 128 * r.1 =
                outLength + multiplier * ((byte &&& 0x7F).toNat + 128 * r.1) := by ring
            rw [hweigh]
            rfl

theorem parse_readRemainingLength (xs : Bytes) :
    readRemainingLength.parse xs = lengthBytes.scan 4 xs := by
  rw [readRemainingLength, parse_readRemainingLengthFrom]
  simp only [one_mul, Nat.zero_add, Prod.mk.eta, Option.map_id']

theorem base_lengthBytes_pow : lengthBytes.base ^ 4 = 2 ^ 28 := by
  change 128 ^ 4 = 2 ^ 28
  norm_num

theorem scan_encodeRemainingLength (length : ℕ) (suffix : Bytes) :
    lengthBytes.scan 4 (encodeRemainingLength length ++ suffix) =
      if length < 2 ^ 28 then some (length, suffix) else none := by
  rw [encodeRemainingLength_eq, Digits.scan_spelling (by decide), base_lengthBytes_pow]

theorem parse_remainingLength {length : ℕ} (tail : Bytes) (hlength : length < 2 ^ 28) :
    readRemainingLength.parse (encodeRemainingLength length ++ tail) = some (length, tail) := by
  rw [parse_readRemainingLength, scan_encodeRemainingLength, if_pos hlength]

theorem parse_frame (packet : Packet) (hbody : packet.2.length < 2 ^ 28) :
    readPacket.parse (frame packet) = some (packet, []) := by
  obtain ⟨header, body⟩ := packet
  simp only [readPacket, frame, framePacket, List.cons_append, parse_bind, parse_recvByte_cons,
    Option.bind_some, parse_remainingLength body hbody]
  split
  · simp only [parse_bind, parse_recvExact, le_rfl, if_true, List.take_length, List.drop_length,
      Option.bind_some, parse_pure]
  · next hempty =>
      have hnil : body = [] := List.length_eq_zero_iff.mp (Nat.eq_zero_of_not_pos hempty)
      simp only [hnil, parse_bind, parse_pure, Option.bind_some]

/-- Four length bytes are enough for no body of `2 ^ 28` bytes. -/
theorem readPacket_length {xs rest : Bytes} {packet : Packet}
    (h : readPacket.parse xs = some (packet, rest)) : packet.2.length < 2 ^ 28 := by
  rw [readPacket, parse_bind, Option.bind_eq_some_iff] at h
  obtain ⟨⟨header, ys⟩, -, h⟩ := h
  rw [parse_bind, Option.bind_eq_some_iff] at h
  obtain ⟨⟨length, zs⟩, hlength, h⟩ := h
  rw [parse_readRemainingLength] at hlength
  obtain ⟨word, hword, hfour, -⟩ := Digits.scan_eq_some_iff.mp hlength
  have hlt : length < 2 ^ 28 := by
    rw [← base_lengthBytes_pow]
    exact hword.lt_pow.trans_le (Nat.pow_le_pow_right lengthBytes.base_pos hfour)
  dsimp only at h
  split at h
  · rw [parse_bind, parse_recvExact] at h
    split at h
    · rw [Option.bind_some, parse_pure] at h
      cases h
      rw [List.length_take]
      omega
    · cases h
  · rw [parse_bind, parse_pure, Option.bind_some, parse_pure] at h
    cases h
    exact Nat.two_pow_pos 28

theorem parse_recvByte_some {xs rest : Bytes} {byte : UInt8}
    (h : recvByte.parse xs = some (byte, rest)) : rest.length < xs.length := by
  cases xs with
  | nil => simp at h
  | cons x xs =>
      rw [parse_recvByte_cons] at h
      cases h
      exact Nat.lt_succ_self _

theorem readPacket_progresses : readPacket.Progresses := by
  intro xs packet rest h
  rw [readPacket, parse_bind, Option.bind_eq_some_iff] at h
  obtain ⟨⟨header, ys⟩, hheader, hrest⟩ := h
  exact (parse_length_le hrest).trans_lt (parse_recvByte_some hheader)

/-- The packet loop of `client_handler` as far as it reads: whole packets,
until one cannot be completed. -/
def readPackets (source : Source UInt8) : List Packet :=
  readPacket.readAll readPacket_progresses source

/-- However the stream of the framed packets is cut into pieces, the reader
yields the packets, takes nothing of what follows them, and from a stream
that breaks off inside a frame yields the packets before that frame. -/
theorem packets_read_back (packets : List Packet) (hbodies : ∀ p ∈ packets, p.2.length < 2 ^ 28)
    (source : Source UInt8) :
    (source.contents = packets.flatMap frame → readPackets source = packets) ∧
      (∀ beyond, source.contents = packets.flatMap frame ++ beyond →
        ∃ rest, readPacket.readMany packets.length source = some (packets, rest) ∧
          rest.contents = beyond) ∧
        ∀ before last after cut more, packets = before ++ last :: after →
          frame last = cut ++ more → more ≠ [] →
            source.contents = before.flatMap frame ++ cut → readPackets source = before := by
  have hwords : ∀ p ∈ packets, readPacket.parse (frame p) = some (p, []) :=
    fun p hp => parse_frame p (hbodies p hp)
  have hnothing : readPacket.parse [] = none := rfl
  refine ⟨fun hs => ?_, fun beyond hs => readMany_words hwords hs, ?_⟩
  · exact readAll_words readPacket_progresses hwords hnothing (by simpa using hs)
  · rintro before last after cut more rfl hcut hmore hs
    have hlast := hwords last (by simp)
    exact readAll_words readPacket_progresses (fun p hp => hwords p (by simp [hp]))
      (parse_cut hlast hcut hmore) hs

/-- A PINGREQ and a SUBSCRIBE, in pieces that respect neither packet. -/
theorem packets_read_back_fragmented :
    readPackets ⟨[[0xC0], [0x00, 0x82], [0x06, 0x00, 0x01, 0x00], [0x01, 0x23, 0x00]], by decide⟩ =
      [(0xC0, []), (0x82, [0x00, 0x01, 0x00, 0x01, 0x23, 0x00])] :=
  (packets_read_back _ (by decide) _).1 (by decide +kernel)

end MockServices.Mqtt
