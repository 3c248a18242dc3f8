import MockServices.Mqtt.Framing

/-!
# Remaining lengths

`decode_remaining_length` takes a length out of a buffer and
`read_remaining_length` off a stream; `encode_remaining_length` writes one.
The length bytes are numerals of base 128. Both decoders are scanners of up
to four of them, and the encoder spells.
-/

namespace MockServices.Mqtt

open Foundations Reader

/-- A product that has to fit an `int`; nothing comes of an overflow. -/
def timesInt (x y : ℕ) : Option ℕ := if x * y < 2 ^ 31 then some (x * y) else none

structure DecodedLength where
  accepted : Bool
  decodedLength : ℕ
  bytesConsumed : ℕ

/-- The loop of `decode_remaining_length` while some of the four bytes are
left; nothing comes of an overflow. -/
def decodeRemainingLengthFrom (data : Bytes) (size : ℕ) :
    (bytesLeft byteIndex multiplier decodedLength bytesConsumed : ℕ) → Option DecodedLength
  | 0, _, _, decodedLength, bytesConsumed => some ⟨false, decodedLength, bytesConsumed⟩
  | bytesLeft + 1, byteIndex, multiplier, decodedLength, bytesConsumed =>
      if byteIndex < size then
        let byte := byteAt data byteIndex
        let decodedLength := decodedLength + (byte &&& 0x7F).toNat * multiplier
        (timesInt multiplier 128).bind fun multiplier =>
          if byte &&& 0x80 = 0 then some ⟨true, decodedLength, bytesConsumed + 1⟩
          else decodeRemainingLengthFrom data size bytesLeft (byteIndex + 1) multiplier
            decodedLength (bytesConsumed + 1)
      else some ⟨false, decodedLength, bytesConsumed⟩

def decodeRemainingLength (data : Bytes) (size : ℕ) : Option DecodedLength :=
  decodeRemainingLengthFrom data size 4 0 1 0 0

/-- The loop of `read_remaining_length` with its `int`; `none` stands for an
overflow. -/
def readCheckedLengthFrom : ℕ → ℕ → ℕ → Reader UInt8 (Option ℕ)
  | 0, _, _ => .fail
  | bytesLeft + 1, multiplier, outLength => do
      let byte ← recvByte
      let outLength := outLength + (byte &&& 0x7F).toNat * multiplier
      match timesInt multiplier 128 with
      | none => return none
      | some multiplier =>
          if byte &&& 0x80 = 0 then return some outLength
          else readCheckedLengthFrom bytesLeft multiplier outLength

def readCheckedLength : Reader UInt8 (Option ℕ) := readCheckedLengthFrom 4 1 0

/-- What a reader answers, and how many bytes it has taken. -/
def received {β : Type} (source : Source UInt8) (r : Reader UInt8 β) : Option (β × ℕ) :=
  (r.run source).map fun x => (x.1, source.contents.length - x.2.contents.length)

theorem pow_times {bytesLeft : ℕ} (hbytes : bytesLeft + 1 ≤ 4) :
    128 ^ (4 - (bytesLeft + 1)) * 128 = 128 ^ (4 - bytesLeft) := by
  rw [← pow_succ]
  congr 1
  omega

/-- Up to the fourth power of 128 an `int` is enough. -/
theorem timesInt_pow {bytesLeft : ℕ} (hbytes : bytesLeft + 1 ≤ 4) :
    timesInt (128 ^ (4 - (bytesLeft + 1))) 128 = some (128 ^ (4 - bytesLeft)) := by
  have hle : 128 ^ (4 - bytesLeft) ≤ 128 ^ 4 := Nat.pow_le_pow_right (by decide) (by omega)
  rw [timesInt, pow_times hbytes, if_pos (hle.trans_lt (by norm_num))]

/-- The `int` of the reader does not overflow. -/
theorem parse_readCheckedLengthFrom {bytesLeft : ℕ} (hbytes : bytesLeft ≤ 4) (outLength : ℕ)
    (xs : Bytes) :
    (readCheckedLengthFrom bytesLeft (128 ^ (4 - bytesLeft)) outLength).parse xs =
      ((readRemainingLengthFrom bytesLeft (128 ^ (4 - bytesLeft)) outLength).parse xs).map fun r =>
        (some r.1, r.2) := by
  induction bytesLeft generalizing outLength xs with
  | zero => rfl
  | succ bytesLeft ih =>
      cases xs with
      | nil => rfl
      | cons byte xs =>
          simp only [readCheckedLengthFrom, readRemainingLengthFrom, parse_bind,
            parse_recvByte_cons, Option.bind_some, timesInt_pow hbytes]
          split
          · rfl
          · rw [ih (Nat.le_of_succ_le hbytes), pow_times hbytes]

theorem parse_readCheckedLength (xs : Bytes) :
    readCheckedLength.parse xs = (lengthBytes.scan 4 xs).map fun r => (some r.1, r.2) := by
  rw [← parse_readRemainingLength]
  exact parse_readCheckedLengthFrom (Nat.le_refl 4) 0 xs

/-- The length that is accepted, and the bytes it has taken. -/
def DecodedLength.answer (decoded : DecodedLength) : Option (ℕ × ℕ) :=
  if decoded.accepted then some (decoded.decodedLength, decoded.bytesConsumed) else none

theorem decodeRemainingLengthFrom_scan {bytesLeft : ℕ} (hbytes : bytesLeft ≤ 4) {data : Bytes}
    {size : ℕ} (hsize : size ≤ data.length) (byteIndex decodedLength : ℕ) :
    ∃ decoded, decodeRemainingLengthFrom data size bytesLeft byteIndex (128 ^ (4 - bytesLeft))
        decodedLength byteIndex = some decoded ∧
      decoded.answer = (lengthBytes.scan bytesLeft ((data.take size).drop byteIndex)).map fun r =>
        (decodedLength + 128 ^ (4 - bytesLeft) * r.1, size - r.2.length) := by
  induction bytesLeft generalizing byteIndex decodedLength with
  | zero => exact ⟨_, rfl, rfl⟩
  | succ bytesLeft ih =>
      have hlength : (data.take size).length = size := List.length_take_of_le hsize
      rw [decodeRemainingLengthFrom]
      by_cases hindex : byteIndex < size
      · have hbyte : byteAt data byteIndex = (data.take size)[byteIndex] := by
          rw [byteAt_eq_getElem (hindex.trans_le hsize), List.getElem_take]
        have hdrop : (data.take size).drop byteIndex =
            byteAt data byteIndex :: (data.take size).drop (byteIndex + 1) := by
          rw [hbyte]
          exact List.drop_eq_getElem_cons (hindex.trans_eq hlength.symm)
        rw [if_pos hindex, timesInt_pow hbytes, hdrop, Digits.scan]
        dsimp only [Option.bind_some]
        by_cases hlast : byteAt data byteIndex &&& 0x80 = 0
        · have hmore : lengthBytes.more (byteAt data byteIndex) = false :=
            decide_eq_false (not_not.mpr hlast)
          rw [if_pos hlast, hmore, if_neg Bool.false_ne_true, Option.map_some, List.length_drop,
            hlength, Nat.sub_sub_self hindex, mul_comm (128 ^ _)]
          exact ⟨_, rfl, rfl⟩
        · have hmore : lengthBytes.more (byteAt data byteIndex) = true := decide_eq_true hlast
          obtain ⟨decoded, hdecoded, hanswer⟩ := ih (Nat.le_of_succ_le hbytes) (byteIndex + 1)
            (decodedLength + (byteAt data byteIndex &&& 0x7F).toNat * 128 ^ (4 - (bytesLeft + 1)))
          rw [if_neg hlast, hmore, if_pos rfl, Option.map_map]
          refine ⟨decoded, hdecoded, hanswer.trans ?_⟩
          congr 1
          funext r
          have hweigh (digit : ℕ) :
              decodedLength + digit * 128 ^ (4 - (bytesLeft + 1)) + 128 ^ (4 - bytesLeft) * r.1 =
                decodedLength + 128 ^ (4 - (bytesLeft + 1)) * (digit + 128 * r.1) := by
            rw [← pow_times hbytes]
            ring
          rw [hweigh]
          rfl
      · have hnil : (data.take size).drop byteIndex = [] :=
          List.drop_of_length_le (hlength.le.trans (Nat.le_of_not_lt hindex))
        rw [if_neg hindex, hnil]
        exact ⟨_, rfl, rfl⟩

theorem decodeRemainingLength_scan {data : Bytes} {size : ℕ} (hsize : size ≤ data.length) :
    ∃ decoded, decodeRemainingLength data size = some decoded ∧
      decoded.answer = (lengthBytes.scan 4 (data.take size)).map fun r =>
        (r.1, size - r.2.length) := by
  obtain ⟨decoded, hdecoded, hanswer⟩ :=
    decodeRemainingLengthFrom_scan (Nat.le_refl 4) hsize 0 0
  simp only [Nat.sub_self, pow_zero, one_mul, Nat.zero_add, List.drop_zero] at hanswer
  exact ⟨decoded, hdecoded, hanswer⟩

theorem received_readCheckedLength (source : Source UInt8) :
    received source readCheckedLength = (lengthBytes.scan 4 source.contents).map fun r =>
      (some r.1, source.contents.length - r.2.length) := by
  have hparse := run_contents readCheckedLength source
  rw [parse_readCheckedLength] at hparse
  have hmap := congrArg
    (Option.map fun r : Option ℕ × Bytes => (r.1, source.contents.length - r.2.length)) hparse
  rw [Option.map_map, Option.map_map] at hmap
  exact hmap

theorem decodeRemainingLength_whole (data : Bytes) :
    ∃ decoded, decodeRemainingLength data data.length = some decoded ∧
      decoded.answer = (lengthBytes.scan 4 data).map fun r => (r.1, data.length - r.2.length) := by
  obtain ⟨decoded, hdecoded, hanswer⟩ := decodeRemainingLength_scan (Nat.le_refl data.length)
  rw [List.take_length] at hanswer
  exact ⟨decoded, hdecoded, hanswer⟩

/-- The same bytes, in a buffer and in a stream. -/
theorem received_eq_answer {data : Bytes} {size : ℕ} {source : Source UInt8}
    (hsize : size ≤ data.length) (hcontents : source.contents = data.take size) :
    ∃ decoded, decodeRemainingLength data size = some decoded ∧
      received source readCheckedLength = decoded.answer.map fun r => (some r.1, r.2) := by
  obtain ⟨decoded, hdecoded, hanswer⟩ := decodeRemainingLength_scan hsize
  refine ⟨decoded, hdecoded, ?_⟩
  rw [received_readCheckedLength, hcontents, hanswer, Option.map_map, List.length_take_of_le hsize]
  rfl

section Written

variable {length : ℕ} {suffix : Bytes} {source : Source UInt8}

theorem length_encodeRemainingLength (hlength : length < 2 ^ 28) :
    1 ≤ (encodeRemainingLength length).length ∧ (encodeRemainingLength length).length ≤ 4 := by
  rw [encodeRemainingLength_eq]
  refine ⟨(Digits.spells_spelling length).length_pos, ?_⟩
  rw [Digits.length_spelling_le_iff (by decide), base_lengthBytes_pow]
  exact hlength

theorem DecodedLength.eq_of_answer {decoded : DecodedLength} {n consumed : ℕ}
    (h : decoded.answer = some (n, consumed)) : decoded = ⟨true, n, consumed⟩ := by
  obtain ⟨accepted, decodedLength, bytesConsumed⟩ := decoded
  cases accepted with
  | false => cases h
  | true => cases h; rfl

theorem decode_written (hlength : length < 2 ^ 28) :
    decodeRemainingLength (encodeRemainingLength length ++ suffix)
        (encodeRemainingLength length ++ suffix).length =
      some ⟨true, length, (encodeRemainingLength length).length⟩ := by
  obtain ⟨decoded, hdecoded, hanswer⟩ :=
    decodeRemainingLength_whole (encodeRemainingLength length ++ suffix)
  rw [scan_encodeRemainingLength, if_pos hlength, Option.map_some, List.length_append,
    Nat.add_sub_cancel] at hanswer
  rw [hdecoded, DecodedLength.eq_of_answer hanswer]

theorem received_written (hlength : length < 2 ^ 28)
    (hcontents : source.contents = encodeRemainingLength length ++ suffix) :
    received source readCheckedLength =
      some (some length, (encodeRemainingLength length).length) := by
  rw [received_readCheckedLength, hcontents, scan_encodeRemainingLength, if_pos hlength,
    Option.map_some, List.length_append, Nat.add_sub_cancel]

/-- What decodes to a length is no shorter than what is written of it, and
is that if it is no longer. -/
theorem written_shortest {data : Bytes} {consumed : ℕ}
    (h : decodeRemainingLength data data.length = some ⟨true, length, consumed⟩) :
    (encodeRemainingLength length).length ≤ data.length ∧
      (data.length = (encodeRemainingLength length).length →
        data = encodeRemainingLength length) := by
  obtain ⟨decoded, hdecoded, hanswer⟩ := decodeRemainingLength_whole data
  rw [h] at hdecoded
  cases hdecoded
  obtain ⟨⟨n, rest⟩, hscan, heq⟩ := Option.map_eq_some_iff.mp hanswer.symm
  cases heq
  rw [encodeRemainingLength_eq]
  exact Digits.shortest_of_scan hscan

theorem written_refused (hlength : 2 ^ 28 ≤ length)
    (hcontents : source.contents = encodeRemainingLength length ++ suffix) :
    (∃ decoded, decodeRemainingLength (encodeRemainingLength length ++ suffix)
        (encodeRemainingLength length ++ suffix).length = some decoded ∧
          decoded.accepted = false) ∧
      received source readCheckedLength = none := by
  have hscan := scan_encodeRemainingLength length suffix
  rw [if_neg (Nat.not_lt.mpr hlength)] at hscan
  constructor
  · obtain ⟨decoded, hdecoded, hanswer⟩ :=
      decodeRemainingLength_whole (encodeRemainingLength length ++ suffix)
    rw [hscan, Option.map_none, DecodedLength.answer, ite_eq_right_iff] at hanswer
    refine ⟨decoded, hdecoded, ?_⟩
    cases haccepted : decoded.accepted with
    | false => rfl
    | true => cases hanswer haccepted
  · rw [received_readCheckedLength, hcontents, hscan]
    rfl

end Written

/-- The two decoders accept the same bytes, as the same length, and take as
many of them, and no `int` overflows on the way. They recover what the
encoder writes of a length below `2 ^ 28`, and refuse what it writes of any
other; and what it writes is the only shortest way to write the length. -/
theorem decoders_agree :
    (∀ (data : Bytes) (size : ℕ) (source : Source UInt8), size ≤ data.length →
      source.contents = data.take size →
        ∃ decoded, decodeRemainingLength data size = some decoded ∧
          received source readCheckedLength = decoded.answer.map fun r => (some r.1, r.2)) ∧
    (∀ (length : ℕ) (suffix : Bytes) (source : Source UInt8), length < 2 ^ 28 →
      source.contents = encodeRemainingLength length ++ suffix →
        let written := encodeRemainingLength length
        decodeRemainingLength (written ++ suffix) (written ++ suffix).length =
            some ⟨true, length, written.length⟩ ∧
          received source readCheckedLength = some (some length, written.length) ∧
          (1 ≤ written.length ∧ written.length ≤ 4) ∧
          ∀ (data : Bytes) (consumed : ℕ),
            decodeRemainingLength data data.length = some ⟨true, length, consumed⟩ →
              written.length ≤ data.length ∧ (data.length = written.length → data = written)) ∧
    ∀ (length : ℕ) (suffix : Bytes) (source : Source UInt8), 2 ^ 28 ≤ length →
      source.contents = encodeRemainingLength length ++ suffix →
        let written := encodeRemainingLength length
        (∃ decoded, decodeRemainingLength (written ++ suffix) (written ++ suffix).length =
            some decoded ∧ decoded.accepted = false) ∧
          received source readCheckedLength = none := by
  refine ⟨?_, ?_, ?_⟩
  · intro data size source hsize hcontents
    exact received_eq_answer hsize hcontents
  · intro length suffix source hlength hcontents
    exact ⟨decode_written hlength, received_written hlength hcontents,
      length_encodeRemainingLength hlength, fun data consumed h => written_shortest h⟩
  · intro length suffix source hlength hcontents
    exact written_refused hlength hcontents

end MockServices.Mqtt
