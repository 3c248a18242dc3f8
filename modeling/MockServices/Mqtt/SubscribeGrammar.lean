import MockServices.Mqtt.DecoderReads
import MockServices.Mqtt.Stop

/-!
# The body of a SUBSCRIBE

The entries of a body are what the loop of `decode_subscribe` finds from
its offset on. The loop accepts a body when it is at its end exactly, and
a handler whose body is rejected adds no filter until it reads again.
-/

namespace MockServices.Mqtt

open Foundations

/-- Entries without a gap: a two-byte length, so many bytes, and a QoS byte. -/
inductive SubscribeEntries : Bytes → List (Bytes × UInt8) → Prop
  | nil : SubscribeEntries [] []
  | cons {high low : UInt8} {filter : Bytes}
      (hlength : filter.length = high.toNat * 256 + low.toNat) (qos : UInt8) {rest : Bytes}
      {filters : List (Bytes × UInt8)} (h : SubscribeEntries rest filters) :
      SubscribeEntries (high :: low :: filter ++ qos :: rest) ((filter, qos) :: filters)

def SubscribeGrammar (data : Bytes) (packet : SubscribePacket) : Prop :=
  ∃ (high low : UInt8) (entries : Bytes), data = high :: low :: entries ∧
    packet.packetId = high.toNat * 256 + low.toNat ∧ SubscribeEntries entries packet.filters

def encodeFilter (entry : Bytes × UInt8) : Bytes :=
  highByte entry.1.length :: lowByte entry.1.length :: entry.1 ++ [entry.2]

def subscribeBody (packetId : ℕ) (filters : List (Bytes × UInt8)) : Bytes :=
  highByte packetId :: lowByte packetId :: filters.flatMap encodeFilter

section Offsets

variable (before : Bytes)

theorem byteAt_append (index : ℕ) (rest : Bytes) :
    byteAt (before ++ rest) (before.length + index) = byteAt rest index := by
  rw [byteAt, List.getD_eq_getElem?_getD, List.getElem?_append_right (Nat.le_add_right _ _),
    Nat.add_sub_cancel_left, byteAt, List.getD_eq_getElem?_getD]

theorem wordAt_append (rest : Bytes) :
    wordAt (before ++ rest) before.length = wordAt rest 0 := by
  have hhigh := byteAt_append before 0 rest
  rw [Nat.add_zero] at hhigh
  rw [wordAt, hhigh, byteAt_append, wordAt, Nat.zero_add]

theorem assign_append (offset length : ℕ) (rest : Bytes) :
    assign (before ++ rest) (before.length + offset) length = assign rest offset length := by
  rw [assign, List.drop_append, List.drop_eq_nil_of_le (Nat.le_add_right _ _),
    Nat.add_sub_cancel_left, List.nil_append, assign]

end Offsets

section Entries

variable {before rest : Bytes} {filters : List (Bytes × UInt8)}

theorem decodeFilters_end (data : Bytes) :
    decodeFilters data data.length data.length = some [] := by
  rw [decodeFilters, if_neg (Nat.lt_irrefl _)]

/-- One turn of the loop, at an entry. -/
theorem decodeFilters_entry {high low : UInt8} {filter : Bytes}
    (hlength : filter.length = high.toNat * 256 + low.toNat) (qos : UInt8) :
    let entry := high :: low :: filter ++ [qos]
    let data := before ++ (high :: low :: filter ++ qos :: rest)
    decodeFilters data data.length before.length =
      (decodeFilters data data.length (before ++ entry).length).map ((filter, qos) :: ·) := by
  intro entry data
  have hword : wordAt data before.length = filter.length := by
    rw [wordAt_append, hlength]
    rfl
  have hfilter : assign data (before.length + 2) filter.length = filter := by
    rw [assign_append]
    simp [assign]
  have hqos : byteAt data (before.length + 2 + filter.length) = qos := by
    rw [Nat.add_assoc, byteAt_append]
    simp [byteAt, Nat.add_comm 2]
  have hdata : data.length = before.length + (2 + filter.length + 1 + rest.length) := by
    simp [data]
    omega
  have hentry : (before ++ entry).length = before.length + 2 + filter.length + 1 := by
    simp [entry]
    omega
  rw [decodeFilters, hword, hfilter, hqos, hentry, if_pos (by omega), if_neg (by omega),
    if_neg (by omega)]

theorem decodeFilters_of_entries (h : SubscribeEntries rest filters) (before : Bytes) :
    decodeFilters (before ++ rest) (before ++ rest).length before.length = some filters := by
  induction h generalizing before with
  | nil =>
      rw [List.append_nil]
      exact decodeFilters_end before
  | @cons high low filter hlength qos rest filters h ih =>
      have hrest := ih (before ++ (high :: low :: filter ++ [qos]))
      have hdata : before ++ (high :: low :: filter ++ [qos]) ++ rest =
          before ++ (high :: low :: filter ++ qos :: rest) := by simp
      rw [hdata] at hrest
      rw [decodeFilters_entry hlength qos, hrest, Option.map_some]

/-- Either an entry is complete, with its QoS byte, or the loop gives up. -/
theorem entry_of_decodeFilters (hne : rest ≠ [])
    (h : decodeFilters (before ++ rest) (before ++ rest).length before.length = some filters) :
    ∃ high low filter qos more, filter.length = UInt8.toNat high * 256 + UInt8.toNat low ∧
      rest = high :: low :: filter ++ qos :: more := by
  have hpos := List.length_pos_iff.mpr hne
  have hfits : 2 ≤ rest.length ∧ 2 + wordAt rest 0 + 1 ≤ rest.length := by
    by_contra hover
    rw [decodeFilters, wordAt_append, List.length_append, if_pos (by omega)] at h
    by_cases hshort : before.length + 2 > before.length + rest.length
    · rw [if_pos hshort] at h
      cases h
    · rw [if_neg hshort, if_pos (by omega)] at h
      cases h
  obtain ⟨htwo, hlong⟩ := hfits
  rcases rest with _ | ⟨high, _ | ⟨low, tail⟩⟩
  · exact absurd rfl hne
  · simp at htwo
  · have hword : wordAt (high :: low :: tail) 0 = high.toNat * 256 + low.toNat := rfl
    rw [hword, List.length_cons, List.length_cons] at hlong
    have hlt : high.toNat * 256 + low.toNat < tail.length := by omega
    refine ⟨high, low, tail.take (high.toNat * 256 + low.toNat),
      tail[high.toNat * 256 + low.toNat], tail.drop (high.toNat * 256 + low.toNat + 1),
      List.length_take_of_le hlt.le, ?_⟩
    rw [List.cons_append, List.cons_append, ← List.drop_eq_getElem_cons hlt,
      List.take_append_drop]

theorem entries_of_decodeFilters (before : Bytes)
    (h : decodeFilters (before ++ rest) (before ++ rest).length before.length = some filters) :
    SubscribeEntries rest filters := by
  induction hsize : rest.length using Nat.strongRecOn generalizing before rest filters with
  | _ size ih =>
      by_cases hne : rest = []
      · subst hne
        rw [List.append_nil, decodeFilters_end] at h
        cases h
        exact .nil
      · obtain ⟨high, low, filter, qos, more, hlength, rfl⟩ := entry_of_decodeFilters hne h
        rw [decodeFilters_entry hlength qos, Option.map_eq_some_iff] at h
        obtain ⟨filters, hmore, rfl⟩ := h
        have hdata : before ++ (high :: low :: filter ++ qos :: more) =
            before ++ (high :: low :: filter ++ [qos]) ++ more := by simp
        rw [hdata] at hmore
        refine .cons hlength qos (ih more.length ?_ _ hmore rfl)
        rw [← hsize]
        simp
        omega

theorem decodeFilters_iff (before : Bytes) :
    decodeFilters (before ++ rest) (before ++ rest).length before.length = some filters ↔
      SubscribeEntries rest filters :=
  ⟨entries_of_decodeFilters before, fun h => decodeFilters_of_entries h before⟩

theorem SubscribeEntries.flatMap_encodeFilter (h : SubscribeEntries rest filters) :
    filters.flatMap encodeFilter = rest := by
  induction h with
  | nil => rfl
  | cons hlength qos h ih =>
      obtain ⟨hhigh, hlow⟩ := bytes_of_length hlength
      rw [List.flatMap_cons, ih, encodeFilter, hhigh, hlow]
      simp

theorem subscribeEntries_flatMap (h : ∀ entry ∈ filters, entry.1.length ≤ 65535) :
    SubscribeEntries (filters.flatMap encodeFilter) filters := by
  induction filters with
  | nil => exact .nil
  | cons entry filters ih =>
      obtain ⟨hentry, hrest⟩ := List.forall_mem_cons.mp h
      have hlength : entry.1.length =
          (highByte entry.1.length).toNat * 256 + (lowByte entry.1.length).toNat :=
        (wordAt_bytes (Nat.lt_succ_of_le hentry) []).symm
      have happend : (entry :: filters).flatMap encodeFilter =
          highByte entry.1.length :: lowByte entry.1.length :: entry.1 ++
            entry.2 :: filters.flatMap encodeFilter := by
        rw [List.flatMap_cons, encodeFilter]
        simp
      rw [happend]
      exact .cons hlength entry.2 (ih hrest)

end Entries

section Bodies

variable {data : Bytes} {packet : SubscribePacket}

theorem decodeSubscribe_cons (high low : UInt8) (entries : Bytes) :
    decodeSubscribe (high :: low :: entries) (high :: low :: entries).length =
      (decodeFilters ([high, low] ++ entries) ([high, low] ++ entries).length
        [high, low].length).map (⟨high.toNat * 256 + low.toNat, ·⟩) := rfl

theorem decodeSubscribe_iff :
    decodeSubscribe data data.length = some packet ↔ SubscribeGrammar data packet := by
  constructor
  · intro h
    match data, h with
    | high :: low :: entries, h =>
        rw [decodeSubscribe_cons, Option.map_eq_some_iff] at h
        obtain ⟨filters, hfilters, rfl⟩ := h
        exact ⟨high, low, entries, rfl, rfl, (decodeFilters_iff _).mp hfilters⟩
  · rintro ⟨high, low, entries, rfl, hid, hentries⟩
    rw [decodeSubscribe_cons, (decodeFilters_iff _).mpr hentries, Option.map_some, ← hid]

theorem SubscribeGrammar.subscribeBody (h : SubscribeGrammar data packet) :
    subscribeBody packet.packetId packet.filters = data := by
  obtain ⟨high, low, entries, rfl, hid, hentries⟩ := h
  rw [Mqtt.subscribeBody, hid, highByte_word, lowByte_word, hentries.flatMap_encodeFilter]

theorem subscribeGrammar_body {packetId : ℕ} {filters : List (Bytes × UInt8)}
    (hid : packetId < 65536) (hfilters : ∀ entry ∈ filters, entry.1.length ≤ 65535) :
    SubscribeGrammar (subscribeBody packetId filters) ⟨packetId, filters⟩ :=
  ⟨highByte packetId, lowByte packetId, _, rfl, (wordAt_bytes hid []).symm,
    subscribeEntries_flatMap hfilters⟩

end Bodies

namespace Broker

/-- A step of the handler after which every session is one from before. -/
def AddsNothing (conn : ConnId) (b : Broker) (event : Event) : Prop :=
  ∀ action b', event = .act conn action → b.step event = some b' →
    ∀ (clientId : Bytes) session, b'.sessions[clientId]? = some session →
      b.sessions[clientId]? = some session

/-- A SUBSCRIBE whose body is rejected changes no session when it is received,
and until the handler is back at the head of its loop it adds nothing. -/
def RejectsBody (b : Broker) (conn : ConnId) : Prop :=
  ∀ handler source header body rest b', b.handlers conn = some handler →
    handler.stage = .reading →
    readPacket.run (b.incoming handler.sock source) = some ((header, body), rest) →
    packetType header = PacketType.subscribe.code → decodeSubscribe body body.length = none →
    b.step (.act conn (.receive source)) = some b' →
      b'.sessions = b.sessions ∧ ∀ later, .act conn .check ∉ later →
        Along step (AddsNothing conn) b' later

section Rejections

variable {b b' : Broker} {conn : ConnId} {handler : Handler} {action : Action}

/-- Where a handler is between the rejection and its next look at `running_`. -/
def rejecting (stage : Stage) : Prop := stage = .dropping ∨ stage = .dropped ∨ stage = .loop

theorem rejecting_act (hstage : rejecting handler.stage) (hcheck : action ≠ .check)
    (h : b.act conn handler action = some b') :
    (∀ (clientId : Bytes) session, b'.sessions[clientId]? = some session →
      b.sessions[clientId]? = some session) ∧
      ∃ next, b'.handlers conn = some next ∧ rejecting next.stage := by
  rcases hstage with hstage | hstage | hstage <;> cases action <;>
    simp only [act, hstage, reduceCtorEq, Option.some.injEq] at h
  · subst h
    refine ⟨fun clientId session hsession => ?_, _, become_handlers_self .., Or.inr (Or.inl rfl)⟩
    rw [become_sessions, removeSession_sessions] at hsession
    exact (Option.ite_none_left_eq_some.mp hsession).2
  · subst h
    exact ⟨fun _ _ h => h, _, become_handlers_self .., Or.inr (Or.inr rfl)⟩
  · exact absurd rfl hcheck

theorem rejecting_run (hkept : b.Bookkept) (hhandler : b.handlers conn = some handler)
    (hstage : rejecting handler.stage) {later : List Event} (hcheck : .act conn .check ∉ later) :
    Along step (AddsNothing conn) b later := by
  induction later generalizing b handler with
  | nil => trivial
  | cons event later ih =>
      rw [List.mem_cons, not_or] at hcheck
      have hown : ∀ action b', event = .act conn action → b.step event = some b' →
          (∀ (clientId : Bytes) session, b'.sessions[clientId]? = some session →
            b.sessions[clientId]? = some session) ∧
            ∃ next, b'.handlers conn = some next ∧ rejecting next.stage := by
        rintro action b' rfl hstep
        rw [step_act hhandler] at hstep
        exact rejecting_act hstage (fun h => hcheck.1 (by rw [h])) hstep
      refine ⟨fun action b' hevent hstep => (hown action b' hevent hstep).1, fun b' hstep => ?_⟩
      by_cases hmine : ∃ action, event = .act conn action
      · obtain ⟨action, hevent⟩ := hmine
        obtain ⟨next, hnext, hrejecting⟩ := (hown action b' hevent hstep).2
        exact ih (hkept.step hstep) hnext hrejecting hcheck.2
      · obtain ⟨m, hmembers⟩ := hkept
        obtain ⟨m', hturned, hkept'⟩ := step_kept hmembers hstep
        have hsame := hmembers.bystander hturned hhandler fun action h => hmine ⟨action, h⟩
        exact ih ⟨m', hkept'⟩ hsame hstage hcheck.2

theorem rejectsBody_of_bookkept (hkept : b.Bookkept) (conn : ConnId) : b.RejectsBody conn := by
  intro handler source header body rest b' hhandler hreading hread htype hdecode hstep
  have hrequest : request (packetType header) body body.length = .subscribe none := by
    rw [request, htype, if_neg (by decide), if_pos rfl, hdecode]
  have hkept' := hkept.step hstep
  simp only [step_act hhandler, act, hreading, run_nextRequest, hread, Option.map_some,
    hrequest] at hstep
  cases hstep
  refine ⟨rfl, fun later hcheck => ?_⟩
  exact rejecting_run hkept' (become_handlers_self ..) (Or.inl rfl) hcheck

end Rejections

end Broker

/-- `decode_subscribe` accepts the grammar with the packet id and the entries
that stand in it, building a body is its inverse, and a rejected body adds
no filter to a session. -/
theorem subscribe_grammar :
    (∀ data packet, decodeSubscribe data data.length = some packet ↔
      SubscribeGrammar data packet) ∧
    (∀ data packet, SubscribeGrammar data packet →
      subscribeBody packet.packetId packet.filters = data) ∧
    (∀ packetId filters, packetId < 65536 → (∀ entry ∈ filters, entry.1.length ≤ 65535) →
      decodeSubscribe (subscribeBody packetId filters) (subscribeBody packetId filters).length =
        some ⟨packetId, filters⟩) ∧
    ∀ events b, run Broker.step {} events = some b → ∀ conn, b.RejectsBody conn := by
  refine ⟨fun _ _ => decodeSubscribe_iff, fun _ _ h => h.subscribeBody, ?_, ?_⟩
  · intro packetId filters hid hfilters
    exact decodeSubscribe_iff.mpr (subscribeGrammar_body hid hfilters)
  · intro events b hrun conn
    have hkept : b.Bookkept :=
      run_invariant (fun _ _ _ h hstep => Broker.Bookkept.step h hstep) ⟨.empty, .init⟩ hrun
    exact Broker.rejectsBody_of_bookkept hkept conn

end MockServices.Mqtt
