import MockServices.Foundations.Probe
import MockServices.Foundations.Run
import MockServices.Mqtt.Broker

/-!
# What the decoders look at

The decoders again, look by look: every index they ask the buffer for, in
the order of the code. None of these is beyond the packet, so what an
earlier packet has left in the buffer of a handler reaches nothing but
that buffer.
-/

namespace MockServices.Mqtt

open Foundations Probe

def probeWord (index : ℕ) : Probe UInt8 ℕ := do
  let high ← item index
  let low ← item (index + 1)
  return high.toNat * 256 + low.toNat

/-- Compares up to the first character that differs. -/
def probeText (offset : ℕ) : Bytes → Probe UInt8 Bool
  | [] => return true
  | character :: text => do
      let byte ← item offset
      if byte = character then probeText (offset + 1) text else return false

/-- The comparison of the protocol name, cut short by a wrong length. -/
def probeName (nameLength : ℕ) : Probe UInt8 Bool :=
  if nameLength = 4 then probeText 2 (ascii "MQTT") else return false

def probeConnect (size : ℕ) : Probe UInt8 (Option ConnectPacket) :=
  if size < 10 then return none
  else do
    let nameLength ← probeWord 0
    let named ← probeName nameLength
    if named = false then return none
    else do
      let level ← item 6
      if level ≠ 4 then return none
      else do
        let flags ← item 7
        let keepalive ← probeWord 8
        if 10 + 2 > size then return none
        else do
          let clientLength ← probeWord 10
          if 12 + clientLength > size then return none
          else do
            let clientId ← span 12 clientLength
            return some ⟨clientId, keepalive, flags⟩

def probePublish (size : ℕ) : Probe UInt8 (Option PublishPacket) :=
  if size < 2 then return none
  else do
    let topicLength ← probeWord 0
    if topicLength = 0 then return none
    else if 2 + topicLength > size then return none
    else do
      let topic ← span 2 topicLength
      let payload ← span (2 + topicLength) (size - (2 + topicLength))
      return some ⟨topic, payload⟩

def probeFilters (size offset : ℕ) : Probe UInt8 (Option (List (Bytes × UInt8))) :=
  if offset < size then
    if offset + 2 > size then return none
    else do
      let filterLength ← probeWord offset
      if offset + 2 + filterLength + 1 > size then return none
      else do
        let filter ← span (offset + 2) filterLength
        let qos ← item (offset + 2 + filterLength)
        let filters ← probeFilters size (offset + 2 + filterLength + 1)
        return filters.map ((filter, qos) :: ·)
  else return some []
termination_by size - offset

def probeSubscribe (size : ℕ) : Probe UInt8 (Option SubscribePacket) :=
  if size < 2 then return none
  else do
    let packetId ← probeWord 0
    let filters ← probeFilters size 2
    return filters.map (⟨packetId, ·⟩)

section Inside

variable {size : ℕ}

theorem inside_probeWord {index : ℕ} (h : index + 1 < size) : (probeWord index).Inside size :=
  (inside_item (by omega)).bind fun _ => (inside_item h).bind fun _ => inside_pure _

theorem inside_probeText {offset : ℕ} {text : Bytes} (h : offset + text.length ≤ size) :
    (probeText offset text).Inside size := by
  induction text generalizing offset with
  | nil => exact inside_pure _
  | cons character text ih =>
      rw [List.length_cons] at h
      refine (inside_item (by omega)).bind fun byte => ?_
      exact Inside.ite (fun _ => ih (by omega)) fun _ => inside_pure _

theorem inside_probeName (nameLength : ℕ) (h : 6 ≤ size) : (probeName nameLength).Inside size :=
  Inside.ite (fun _ => inside_probeText (Nat.le_trans (by decide) h)) fun _ => inside_pure _

theorem inside_probeConnect (size : ℕ) : (probeConnect size).Inside size := by
  refine Inside.ite (fun _ => inside_pure _) fun hheader => ?_
  refine (inside_probeWord (by omega)).bind fun nameLength => ?_
  refine (inside_probeName nameLength (by omega)).bind fun named => ?_
  refine Inside.ite (fun _ => inside_pure _) fun _ => ?_
  refine (inside_item (by omega)).bind fun level => Inside.ite (fun _ => inside_pure _) fun _ => ?_
  refine (inside_item (by omega)).bind fun flags => (inside_probeWord (by omega)).bind fun _ => ?_
  refine Inside.ite (fun _ => inside_pure _) fun hlength => ?_
  refine (inside_probeWord (by omega)).bind fun clientLength => ?_
  refine Inside.ite (fun _ => inside_pure _) fun hclient => ?_
  exact (inside_span (by omega)).bind fun clientId => inside_pure _

theorem inside_probePublish (size : ℕ) : (probePublish size).Inside size := by
  refine Inside.ite (fun _ => inside_pure _) fun hlength => ?_
  refine (inside_probeWord (by omega)).bind fun topicLength => ?_
  refine Inside.ite (fun _ => inside_pure _) fun _ => Inside.ite (fun _ => inside_pure _) ?_
  intro htopic
  refine (inside_span (by omega)).bind fun topic => ?_
  exact (inside_span (by omega)).bind fun payload => inside_pure _

/-- Induction on what is left of the packet. -/
theorem inside_probeFilters (size offset : ℕ) : (probeFilters size offset).Inside size := by
  induction hleft : size - offset using Nat.strongRecOn generalizing offset with
  | _ left ih =>
      rw [probeFilters]
      refine Inside.ite (fun hmore => ?_) fun _ => inside_pure _
      refine Inside.ite (fun _ => inside_pure _) fun hlength => ?_
      refine (inside_probeWord (by omega)).bind fun filterLength => ?_
      refine Inside.ite (fun _ => inside_pure _) fun hentry => ?_
      refine (inside_span (by omega)).bind fun filter => ?_
      refine (inside_item (by omega)).bind fun qos => ?_
      exact (ih _ (by omega) _ rfl).bind fun filters => inside_pure _

theorem inside_probeSubscribe (size : ℕ) : (probeSubscribe size).Inside size := by
  refine Inside.ite (fun _ => inside_pure _) fun hlength => ?_
  refine (inside_probeWord (by omega)).bind fun packetId => ?_
  exact (inside_probeFilters size 2).bind fun filters => inside_pure _

end Inside

section Answers

variable {data : Bytes} {size : ℕ}

theorem run_byte {index : ℕ} (h : index < data.length) :
    (item index).run data = some (byteAt data index) := by
  rw [run_item h, byteAt_eq_getElem h]

theorem run_probeWord {index : ℕ} (h : index + 1 < data.length) :
    (probeWord index).run data = some (wordAt data index) := by
  rw [probeWord, run_bind, run_byte (by omega), Option.bind_some, run_bind, run_byte h,
    Option.bind_some, run_pure, wordAt]

theorem run_probeText {offset : ℕ} {text : Bytes} (h : offset + text.length ≤ data.length) :
    (probeText offset text).run data = some (decide (assign data offset text.length = text)) := by
  induction text generalizing offset with
  | nil => simp [probeText, assign]
  | cons character text ih =>
      rw [List.length_cons] at h
      have hoffset : offset < data.length := by omega
      have hrest : offset + 1 + text.length ≤ data.length := by omega
      have hsplit : assign data offset (text.length + 1) =
          byteAt data offset :: assign data (offset + 1) text.length := by
        rw [assign, List.drop_eq_getElem_cons hoffset, List.take_succ_cons, assign,
          byteAt_eq_getElem hoffset]
      rw [probeText, run_bind, run_byte hoffset, Option.bind_some, List.length_cons, hsplit]
      split
      · next heq => simp [ih hrest, heq]
      · next hne => simp [hne]

theorem run_span_assign {offset length : ℕ} (h : offset + length ≤ data.length) :
    (span offset length).run data = some (assign data offset length) := run_span h

theorem run_probeName (h : 6 ≤ data.length) : (probeName (wordAt data 0)).run data =
    some (decide (wordAt data 0 = 4 ∧ assign data 2 4 = ascii "MQTT")) := by
  rw [probeName]
  split
  · next hlength =>
      have hname : (ascii "MQTT").length = 4 := by decide
      rw [run_probeText (by rw [hname]; omega), hname]
      simp [hlength]
  · next hlength => simp [hlength]

theorem run_probeConnect (h : size ≤ data.length) :
    (probeConnect size).run data = some (decodeConnect data size) := by
  rw [probeConnect, decodeConnect]
  split
  · rfl
  rw [run_bind, run_probeWord (by omega), Option.bind_some, run_bind, run_probeName (by omega),
    Option.bind_some]
  by_cases hname : wordAt data 0 = 4 ∧ assign data 2 4 = ascii "MQTT"
  · rw [decide_eq_true hname, if_neg (by decide), if_neg (by tauto), run_bind,
      run_byte (by omega), Option.bind_some]
    split
    · rfl
    rw [run_bind, run_byte (by omega), Option.bind_some, run_bind, run_probeWord (by omega),
      Option.bind_some]
    split
    · rfl
    rw [run_bind, run_probeWord (by omega), Option.bind_some]
    split
    · rfl
    rw [run_bind, run_span_assign (by omega), Option.bind_some, run_pure]
  · rw [decide_eq_false hname, if_pos rfl, if_pos (by tauto), run_pure]

theorem run_probePublish (h : size ≤ data.length) :
    (probePublish size).run data = some (decodePublish data size) := by
  rw [probePublish, decodePublish]
  split
  · rfl
  rw [run_bind, run_probeWord (by omega), Option.bind_some]
  split
  · rfl
  split
  · rfl
  rw [run_bind, run_span_assign (by omega), Option.bind_some, run_bind,
    run_span_assign (by omega), Option.bind_some, run_pure]

theorem run_probeFilters (h : size ≤ data.length) (offset : ℕ) :
    (probeFilters size offset).run data = some (decodeFilters data size offset) := by
  induction hleft : size - offset using Nat.strongRecOn generalizing offset with
  | _ left ih =>
      rw [probeFilters, decodeFilters]
      split
      · split
        · rfl
        rw [run_bind, run_probeWord (by omega), Option.bind_some]
        split
        · rfl
        rw [run_bind, run_span_assign (by omega), Option.bind_some, run_bind,
          run_byte (by omega), Option.bind_some, run_bind, ih _ (by omega) _ rfl,
          Option.bind_some, run_pure]
      · rfl

theorem run_probeSubscribe (h : size ≤ data.length) :
    (probeSubscribe size).run data = some (decodeSubscribe data size) := by
  rw [probeSubscribe, decodeSubscribe]
  split
  · rfl
  rw [run_bind, run_probeWord (by omega), Option.bind_some, run_bind, run_probeFilters h,
    Option.bind_some, run_pure]

end Answers

section Leftovers

variable {data other : Bytes} {size : ℕ}

/-- What a confined probe computes, it computes from the packet alone. -/
theorem eq_of_probe {β : Type} {p : Probe UInt8 β} {decode : Bytes → β} (hp : p.Inside size)
    (hrun : ∀ data : Bytes, size ≤ data.length → p.run data = some (decode data))
    (hdata : size ≤ data.length) (hother : size ≤ other.length)
    (hagree : data.take size = other.take size) : decode data = decode other := by
  have hsame := hp.run_congr hagree
  rw [hrun data hdata, hrun other hother] at hsame
  exact Option.some.inj hsame

theorem decodeConnect_congr (hdata : size ≤ data.length) (hother : size ≤ other.length)
    (hagree : data.take size = other.take size) :
    decodeConnect data size = decodeConnect other size :=
  eq_of_probe (inside_probeConnect size) (fun _ => run_probeConnect) hdata hother hagree

theorem decodePublish_congr (hdata : size ≤ data.length) (hother : size ≤ other.length)
    (hagree : data.take size = other.take size) :
    decodePublish data size = decodePublish other size :=
  eq_of_probe (inside_probePublish size) (fun _ => run_probePublish) hdata hother hagree

theorem decodeSubscribe_congr (hdata : size ≤ data.length) (hother : size ≤ other.length)
    (hagree : data.take size = other.take size) :
    decodeSubscribe data size = decodeSubscribe other size :=
  eq_of_probe (inside_probeSubscribe size) (fun _ => run_probeSubscribe) hdata hother hagree

theorem length_store (buffer received : Bytes) :
    (store buffer received).length = max buffer.length received.length := by
  rw [store, List.length_append, List.length_drop]
  omega

theorem take_store (buffer received : Bytes) : (store buffer received).take received.length =
    received := List.take_left

/-- What the switch makes of a packet, whatever stood in the buffer. -/
theorem request_store (type : UInt8) (buffer body : Bytes) :
    request type (store buffer body) body.length = request type body body.length := by
  have hsize : body.length ≤ (store buffer body).length := by
    rw [length_store]
    exact Nat.le_max_right _ _
  have hagree : (store buffer body).take body.length = body.take body.length := by
    rw [take_store, List.take_length]
  rw [request, decodePublish_congr hsize le_rfl hagree, decodeSubscribe_congr hsize le_rfl hagree,
    request]

theorem run_nextRequest (buffer : Bytes) (source : Source UInt8) :
    (nextRequest buffer).run source = (readPacket.run source).map fun got =>
      ((request (packetType got.1.1) got.1.2 got.1.2.length,
        store (store buffer [got.1.1]) got.1.2), got.2) := by
  rw [nextRequest, Reader.run_bind, Option.map_eq_bind]
  refine Option.bind_congr fun ⟨⟨header, body⟩, rest⟩ _ => ?_
  change some ((request (packetType header) (store (store buffer [header]) body) body.length,
    store (store buffer [header]) body), rest) = _
  rw [request_store]
  rfl

end Leftovers

end MockServices.Mqtt
