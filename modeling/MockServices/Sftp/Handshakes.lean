import MockServices.Sftp.Sessions

/-!
# The handshake states of the SFTP server

`get_hs` goes on with what it has found whether or not there is an entry
for the session. The entry is made by the thread of the session, so a
callback finds one unless it comes in the key exchange, before the thread
is there.
-/

namespace MockServices.Sftp

open Foundations

namespace Service

variable {σ : Type} {s t : Service σ} {env : Environment σ} {longWidth : ℕ}
  {event : ServiceEvent} {session : Lease SshSession} {party : PartyId}

/-- No callback of the key exchange opens a channel or asks for the
subsystem. -/
def KeepsHandshake (s : Service σ) (event : ServiceEvent) : Prop :=
  s.fault = none → event.reads = some none → s.acceptor.listening = none

theorem listening_eq_some_iff {i : ℕ} :
    s.listening (some i) = some session ↔ ∃ thread, s.threads[i]? = some thread ∧
      thread.stage.isListening = true ∧ thread.session = session := by
  simp [listening, Option.bind_eq_some_iff]

theorem standing_of_isListening {stage : ThreadStage} (h : stage.isListening = true) :
    stage.standing = some .shaking := by
  cases stage with
  | handling | starting | serving | leaving => rfl
  | _ => cases h

/-- A thread for which libssh may call back has its entry. -/
theorem Sound.handshakes_of_listening {i : ℕ} (h : s.Sound)
    (hparty : s.listening (some i) = some session) : s.handshakes session.address ≠ none := by
  obtain ⟨proved, found, hsound⟩ := h
  obtain ⟨thread, hthread, hlistening, rfl⟩ := listening_eq_some_iff.mp hparty
  have hseat := seat_thread hthread (standing_of_isListening hlistening)
  have hown := hsound.handshakes.own thread.session
    ((hsound.tenure.mem_leases_iff hseat).mpr rfl)
  intro hnone
  simp [hnone] at hown

/-- The acceptor has its session before there is an entry. -/
theorem Sound.handshakes_of_exchanging (h : s.Sound)
    (hlistening : s.acceptor.listening = some session) : s.handshakes session.address = none := by
  obtain ⟨proved, found, hsound⟩ := h
  have hacceptor : s.acceptor = .exchanging session := by
    cases hstage : s.acceptor with
    | exchanging other =>
        rw [hstage] at hlistening
        cases hlistening
        rfl
    | _ =>
        rw [hstage] at hlistening
        cases hlistening
  have hseat : s.tenure.seat none = some (session, .enrolled) := by
    rw [seat_none, hacceptor]
    rfl
  have hnone := hsound.handshakes.eq_none session.address fun other hother heq => by
    obtain rfl := hsound.tenure.eq_of_seat hother hseat (.inl heq)
    exact absurd ((hsound.tenure.mem_leases_iff hseat).mp hother) (by simp)
  simpa using hnone

/-- The step lemma: only a callback of the key exchange misses the entry. -/
theorem Sound.fault_of_step (h : s.Sound) (hkeeps : s.KeepsHandshake event)
    (hstep : s.step env longWidth event = some t) : t.fault ≠ some .noHandshake := by
  obtain ⟨hfault, hstepped⟩ := stepped hstep
  have hgood : s.fault ≠ some .noHandshake := by simp [hfault]
  cases hstepped with
  | @missing event party session hparty hreads hnone hevent =>
      cases party with
      | none =>
          have hquiet := hkeeps hfault hreads
          rw [show s.acceptor.listening = some session from hparty] at hquiet
          cases hquiet
      | some i => exact absurd hnone (h.handshakes_of_listening hparty)
  | faulted fault => simp
  | @entered i thread hthread hstage =>
      change (s.makeHs thread.session.address).fault ≠ _
      unfold makeHs
      split <;> exact hgood
  | _ => exact hgood

/-- A callback of the key exchange that reads the entry finds none. -/
theorem Sound.missing_of_callback (h : s.Sound) (hbreaks : ¬ s.KeepsHandshake event) :
    ∃ t, s.step env longWidth event = some t ∧ t.fault = some .noHandshake := by
  unfold KeepsHandshake at hbreaks
  push Not at hbreaks
  obtain ⟨hfault, hreads, hlistening⟩ := hbreaks
  obtain ⟨session, hsession⟩ := Option.ne_none_iff_exists'.mp hlistening
  have hnone := h.handshakes_of_exchanging hsession
  have hupdate : ∀ f, s.updateHs session.address f = { s with fault := some .noHandshake } := by
    intro f
    rw [updateHs, hnone]
  cases event with
  | callback party callback =>
      have hparty : party = none := by
        cases callback with
        | authPassword => cases hreads
        | channelOpenSession chan =>
            cases chan with
            | none => cases hreads
            | some chan => exact Option.some.inj hreads
        | channelSubsystem subsystem =>
            exact Option.some.inj (Option.ite_none_right_eq_some.mp hreads).2
      subst hparty
      refine ⟨s.onCallback session.address callback, ?_, ?_⟩
      · rw [Service.step, if_pos hfault]
        change (s.acceptor.listening).map _ = _
        rw [hsession, Option.map_some]
      · cases callback with
        | authPassword => cases hreads
        | channelOpenSession chan =>
            cases chan with
            | none => cases hreads
            | some chan =>
                rw [onCallback, hupdate]
        | channelSubsystem subsystem =>
            rw [onCallback, if_pos (Option.ite_none_right_eq_some.mp hreads).1, hupdate]
  | thread i action =>
      cases action with
      | handled ok => cases ok <;> cases hreads
      | _ => cases hreads
  | _ => cases hreads

/-- `get_hs` finds an entry in every run exactly when no channel is opened
and no subsystem asked for in a key exchange. -/
theorem handshakes_found_iff (env : Environment σ) (longWidth : ℕ) (init : σ)
    (events : List ServiceEvent) :
    Always (Service.step env longWidth) (fun s => s.fault ≠ some .noHandshake) { env := init }
        events ↔
      Along (Service.step env longWidth) KeepsHandshake { env := init } events := by
  refine always_iff_along (I := fun s : Service σ => s.Sound ∧ s.fault ≠ some .noHandshake)
    (fun s h => h.2) (fun s event t h hkeeps hstep => ?_) (fun s event h hbreaks => ?_)
    ⟨sound_fresh init, by simp⟩ events
  · exact ⟨h.1.step hstep, h.1.fault_of_step hkeeps hstep⟩
  · obtain ⟨t, ht, hfault⟩ :
        ∃ t, Service.step env longWidth s event = some t ∧ t.fault = some .noHandshake :=
      h.1.missing_of_callback hbreaks
    exact ⟨t, ht, fun hne => hne hfault⟩

end Service

end MockServices.Sftp
