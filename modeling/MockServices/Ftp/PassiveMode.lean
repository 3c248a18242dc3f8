import MockServices.Foundations.Decimal
import MockServices.Ftp.ReplyStream
import MockServices.Ftp.Sockets

/-!
# The address of the passive listener

A client takes the address for its data connection out of the 227 reply:
it reads the numbers between the parentheses. What it has read last is the
address of the listener that the server has, whatever commands come in
between, for as long as the server has one and the control connection is
open.
-/

namespace MockServices.Ftp

open Foundations

/-! ## The client -/

/-- What stands between the parentheses. `end - paren - 1` wraps around
when they stand the other way. -/
def passiveParts (lastText : Text) : Option Text :=
  (lastText.findIdx? (· = '(')).bind fun paren =>
    (lastText.findIdx? (· = ')')).map fun close =>
      let count := if paren < close then close - paren - 1 else lastText.length
      (lastText.drop (paren + 1)).take count

def blankForComma (ch : Char) : Char := if ch = ',' then ' ' else ch

/-- `pasv_host_` and `pasv_port_` of the test client. -/
abbrev PassiveAddress := Text × UInt16

/-- `enter_pasv`, when it has read the response to PASV. -/
def enterPasv (told : Option PassiveAddress) (lastText : Text) : Option PassiveAddress :=
  if lastText.take 3 = txt "227" then
    match (passiveParts lastText).bind fun parts =>
        scanInts (-2 ^ 31) (2 ^ 31 - 1) 6 (parts.map blankForComma) with
    | some [octet1, octet2, octet3, octet4, portHigh, portLow] =>
        some (written '.' [octet1, octet2, octet3, octet4], UInt16.ofInt (portHigh * 256 + portLow))
    | _ => told
  else told

/-! ## The reply -/

/-- The reply that `pasv_cmd` sends when it listens. -/
def passiveReply (dataPort : UInt16) : Text :=
  txt ("227 Entering Passive Mode (127,0,0,1," ++ toString (dataPort.toNat / 256) ++ "," ++
    toString (dataPort.toNat % 256) ++ ")\r\n")

def passiveNumbers (dataPort : UInt16) : List ℤ :=
  [127, 0, 0, 1, (dataPort.toNat / 256 : ℕ), (dataPort.toNat % 256 : ℕ)]

theorem passiveReply_eq (dataPort : UInt16) :
    passiveReply dataPort = txt "227 Entering Passive Mode " ++
      '(' :: (written ',' (passiveNumbers dataPort) ++ ')' :: txt "\r\n") := by
  have hnat : ∀ n : ℕ, (toString (n : ℤ)).toList = (toString n).toList := fun _ => rfl
  have hhost : (toString (127 : ℤ)).toList = ['1', '2', '7'] ∧
      (toString (0 : ℤ)).toList = ['0'] ∧ (toString (1 : ℤ)).toList = ['1'] := by decide
  have hfront : "227 Entering Passive Mode (127,0,0,1,".toList =
      "227 Entering Passive Mode ".toList ++
        ['(', '1', '2', '7', ',', '0', ',', '0', ',', '1', ','] := by decide
  have hcomma : ",".toList = [','] := by decide
  have hend : ")\r\n".toList = ')' :: "\r\n".toList := by decide
  obtain ⟨h127, h0, h1⟩ := hhost
  simp only [passiveReply, passiveNumbers, written, List.map_cons, List.map_nil,
    List.intercalate_cons_cons, List.intercalate_singleton, hnat, h127, h0, h1, txt,
    String.toList_append, List.append_assoc, hfront, hcomma, hend, List.cons_append,
    List.nil_append]

/-- What stands between the first parentheses of a text. -/
theorem passiveParts_eq {before inner after : Text} (hopen : '(' ∉ before) (hclose : ')' ∉ before)
    (hinner : ')' ∉ inner) :
    passiveParts (before ++ '(' :: (inner ++ ')' :: after)) = some inner := by
  have hparen : (before ++ '(' :: (inner ++ ')' :: after)).findIdx? (· = '(') =
      some before.length := by
    have hnone : before.findIdx? (· = '(') = none :=
      List.findIdx?_eq_none_iff.mpr fun c hc => by
        simpa using fun heq : c = '(' => hopen (heq ▸ hc)
    simp [List.findIdx?_append, hnone, List.findIdx?_cons]
  have hend : (before ++ '(' :: (inner ++ ')' :: after)).findIdx? (· = ')') =
      some (before.length + 1 + inner.length) := by
    have hnone : before.findIdx? (· = ')') = none :=
      List.findIdx?_eq_none_iff.mpr fun c hc => by
        simpa using fun heq : c = ')' => hclose (heq ▸ hc)
    have hnone' : inner.findIdx? (· = ')') = none :=
      List.findIdx?_eq_none_iff.mpr fun c hc => by
        simpa using fun heq : c = ')' => hinner (heq ▸ hc)
    simp [List.findIdx?_append, hnone, hnone', List.findIdx?_cons]
    omega
  have hdrop : (before ++ '(' :: (inner ++ ')' :: after)).drop (before.length + 1) =
      inner ++ ')' :: after := by
    rw [← List.drop_drop, List.drop_left]
    rfl
  unfold passiveParts
  rw [hparen, hend, Option.bind_some, Option.map_some]
  dsimp only
  rw [if_pos (by omega), hdrop, show before.length + 1 + inner.length - before.length - 1 =
    inner.length by omega, List.take_left]

theorem enterPasv_passiveReply (told : Option PassiveAddress) (dataPort : UInt16) :
    enterPasv told (passiveReply dataPort) = some (txt "127.0.0.1", dataPort) := by
  have hcode : (passiveReply dataPort).take 3 = txt "227" := by
    rw [passiveReply_eq]
    rfl
  have hparts : passiveParts (passiveReply dataPort) =
      some (written ',' (passiveNumbers dataPort)) := by
    rw [passiveReply_eq]
    refine passiveParts_eq (by decide) (by decide) fun hmem => ?_
    rcases mem_written hmem with heq | hminus | hdigit
    · cases heq
    · cases hminus
    · cases hdigit
  have hblanks : (written ',' (passiveNumbers dataPort)).map blankForComma =
      written ' ' (passiveNumbers dataPort) := by
    refine map_written (fun c hc => if_neg ?_) ',' _
    rintro rfl
    rcases hc with hminus | hdigit
    · cases hminus
    · cases hdigit
  have hlt := dataPort.toNat_lt
  have hbounds : ∀ z ∈ passiveNumbers dataPort, (-2 ^ 31 : ℤ) ≤ z ∧ z ≤ 2 ^ 31 - 1 := by
    simp only [passiveNumbers, List.forall_mem_cons, List.not_mem_nil, false_imp_iff, implies_true,
      and_true]
    omega
  have hport : UInt16.ofInt ((dataPort.toNat / 256 : ℕ) * 256 + (dataPort.toNat % 256 : ℕ)) =
      dataPort := by
    have hnat : ((dataPort.toNat / 256 : ℕ) : ℤ) * 256 + (dataPort.toNat % 256 : ℕ) =
        (dataPort.toNat : ℤ) := by omega
    have hmod : ((dataPort.toNat : ℤ) % 2 ^ 16).toNat = dataPort.toNat := by omega
    rw [hnat, UInt16.ofInt, hmod]
    exact UInt16.ofNat_toNat
  have hhost : written '.' [127, 0, 0, 1] = txt "127.0.0.1" := by decide
  rw [enterPasv, if_pos hcode, hparts, Option.bind_some, hblanks,
    show 6 = (passiveNumbers dataPort).length from rfl, scanInts_written hbounds]
  exact congrArg some (Prod.ext hhost hport)

/-! ## The conversation -/

/-- A connection and its client. `ports` are the ports that the system has
given the passive listeners. -/
structure Paired where
  conn : Connection
  ports : RawSocket → Option UInt16 := fun _ => none
  told : Option PassiveAddress := none

namespace Paired

/-- The client reads the response to every PASV that it sends. -/
def next (p : Paired) : Input → Paired
  | .line text os =>
      let conn := p.conn.next (.line text os)
      if lineVerb text = some .pasv then
        let effects := p.conn.effects os text
        { conn
          ports := (openedBy effects).foldl
            (fun ports sock => Function.update ports sock os.getsockname) p.ports
          told := (controlLines effects).foldl enterPasv p.told }
      else { p with conn }
  | input => { p with conn := p.conn.next input }

def step (p : Paired) (input : Input) : Option Paired := some (p.next input)

/-- While the control connection is open the client knows the address of
the listener. A PASV behind QUIT opens one too, but its 227 is not sent. -/
def Current (p : Paired) : Prop :=
  p.conn.client.sock ≠ none → p.conn.client.pasv = true →
    ∃ listener port, p.conn.client.dataSock = some listener ∧ p.ports listener = some port ∧
      p.told = some (txt "127.0.0.1", port)

end Paired

section Steps

variable {os : Os} {server server' : Server} {client client' : Client} {line : Text}
  {effects : List Effect}

theorem withData_pasv (transfer : List Effect × Text) :
    (withData os client transfer).1.pasv = true →
      (withData os client transfer).1 = client := by
  unfold withData acceptData
  cases hpasv : client.pasv <;> cases client.dataSock <;> cases os.accept <;> simp

/-- A listener that is there after any other command was there before. -/
theorem Dispatched.listener (h : Dispatched os server client line server' client' effects)
    (hverb : lineVerb line ≠ some .pasv) (hpasv : client'.pasv = true) :
    client.pasv = true ∧ client'.dataSock = client.dataSock := by
  cases h with
  | gaveUp _ _ hpasv' | listening _ _ hpasv' => exact absurd hpasv' hverb
  | transferred transfer path =>
      have hsame := withData_pasv _ hpasv
      rw [hsame] at hpasv ⊢
      exact ⟨hpasv, rfl⟩
  | quit => cases hpasv
  | _ => exact ⟨hpasv, rfl⟩

/-- What PASV leaves, when it leaves a listener that was not there before. -/
theorem pasvCmd_cases (os : Os) (client : Client) :
    (pasvCmd os client = (client, ftpSend client "530 Please login with USER and PASS\r\n")) ∨
      (pasvCmd os client).1.pasv = false ∨
      ∃ dataSock dataPort, os.getsockname = some dataPort ∧
        pasvCmd os client = ({ client with dataSock := some dataSock, pasv := true },
          (closePasv client).2 ++ [.openSocket dataSock] ++
            ftpSend client (passiveReply dataPort)) := by
  unfold pasvCmd requireAuth
  split
  · right
    cases os.socket with
    | none => exact .inl rfl
    | some dataSock =>
        dsimp only
        split
        · exact .inl rfl
        · split
          · exact .inl rfl
          · cases os.getsockname with
            | none => exact .inl rfl
            | some dataPort => exact .inr ⟨dataSock, dataPort, rfl, rfl⟩
  · exact .inl rfl

theorem openedBy_listening (client : Client) (dataSock : RawSocket) (msg : Text) :
    openedBy ((closePasv client).2 ++ [.openSocket dataSock] ++ ftpSend client msg) =
      [dataSock] := by
  have hreplies := (sockets_of_onlyReplies (onlyReplies_ftpSend client msg)).1
  have hclosing : openedBy (closePasv client).2 = [] := by
    cases hdata : client.dataSock <;> simp [closePasv, hdata, openedBy]
  simp only [openedBy, List.filterMap_append] at hreplies hclosing ⊢
  rw [hreplies, hclosing]
  rfl

theorem controlLines_listening (hsock : client.sock ≠ none) (dataSock : RawSocket) (msg : Text) :
    controlLines ((closePasv client).2 ++ [.openSocket dataSock] ++ ftpSend client msg) =
      [msg] := by
  rw [controlLines_append, controlLines_append, controlLines_closePasv, controlLines_ftpSend hsock]
  rfl

end Steps

namespace Paired

variable {p q : Paired}

theorem Current.line (h : p.Current) (text : Text) (os : Os) :
    (p.next (.line text os)).Current := by
  by_cases hverb : lineVerb text = some .pasv
  · have hdispatch : dispatch os p.conn.server p.conn.client text =
        (p.conn.server, pasvCmd os p.conn.client) := by
      rw [dispatch_eq, hverb]
      rfl
    have hnext : p.next (.line text os) =
        { conn := ⟨p.conn.server, (pasvCmd os p.conn.client).1⟩
          ports := (openedBy (pasvCmd os p.conn.client).2).foldl
            (fun ports sock => Function.update ports sock os.getsockname) p.ports
          told := (controlLines (pasvCmd os p.conn.client).2).foldl enterPasv p.told } := by
      simp only [next, if_pos hverb, Connection.next, Connection.effects, hdispatch]
    rw [hnext]
    intro hsock hpasv
    rcases pasvCmd_cases os p.conn.client with heq | hclosed | ⟨dataSock, dataPort, hport, heq⟩
    · -- The client is not logged in, and the reply is no 227.
      rw [heq] at hsock hpasv ⊢
      have hclosed : openedBy (ftpSend p.conn.client
          "530 Please login with USER and PASS\r\n") = [] :=
        (sockets_of_onlyReplies (onlyReplies_ftpSend _ _)).1
      have hkept : enterPasv p.told "530 Please login with USER and PASS\r\n" = p.told :=
        if_neg (by decide)
      rw [hclosed, controlLines_ftpSend hsock, List.foldl_nil, List.foldl_cons, List.foldl_nil, hkept]
      exact h hsock hpasv
    · exact absurd hpasv (by simp [hclosed])
    · rw [heq] at hsock ⊢
      have hopen : p.conn.client.sock ≠ none := hsock
      refine ⟨dataSock, dataPort, rfl, ?_, ?_⟩
      · dsimp only
        rw [openedBy_listening, List.foldl_cons, List.foldl_nil, Function.update_self, hport]
      · dsimp only
        rw [controlLines_listening hopen, List.foldl_cons, List.foldl_nil, enterPasv_passiveReply]
  · have hnext : p.next (.line text os) = { p with conn := p.conn.next (.line text os) } := by
      simp only [next, if_neg hverb]
    rw [hnext]
    intro hsock hpasv
    have hdispatched := dispatched os p.conn.server p.conn.client text
    obtain ⟨hbefore, hsame⟩ := hdispatched.listener hverb hpasv
    have hopen : p.conn.client.sock ≠ none := by
      intro hnone
      rcases hdispatched.sock with hkept | ⟨-, hclosed⟩
      · exact hsock (hkept.trans hnone)
      · exact hsock hclosed
    obtain ⟨listener, port, hlistener, hport, htold⟩ := h hopen hbefore
    exact ⟨listener, port, hsame.trans hlistener, hport, htold⟩

/-- The step lemma. -/
theorem Current.step (h : p.Current) {input : Input} (hstep : p.step input = some q) :
    q.Current := by
  obtain rfl := Option.some.inj hstep
  cases input with
  | line text os => exact h.line text os
  | addUser | addAnonymousUser | clearUsers => exact h

/-- Whatever commands the client sends and whatever the system answers, while
the control connection is open the address that it has read last is that of
the listener on which the next transfer is accepted. -/
theorem passive_address_current (tmp : Text) (sock : RawSocket) (inputs : List Input) :
    Always Paired.step Current { conn := Connection.start tmp sock } inputs :=
  always_of_invariant_along (fun _ _ _ h _ hstep => Current.step h hstep) (fun _ h => h)
    (fun _ hpasv => by cases hpasv) (along_of_forall (fun _ _ => trivial) _ _)

end Paired

end MockServices.Ftp
