import LibZmq.Zmtp.PlainMechanism

/-! The HELLO command of PLAIN in memory: what the server reads of it, and which commands it takes. -/

namespace Zmq

open List Except

def helloCommand (username password : List UInt8) : List UInt8 :=
  helloName ++ UInt8.ofNat username.length :: username ++ UInt8.ofNat password.length :: password

namespace PlainServer

/-- A length and as many bytes, with the position and the number of bytes behind them; `none` is EPROTO. -/
def readField (data : List UInt8) (pos bytesLeft : ℕ) : Except Crash (Option (List UInt8 × ℕ × ℕ)) :=
  if bytesLeft < 1 then .ok none
  else do
    let length ← Block.read data pos 1
    let length := (length.headD 0).toNat
    if bytesLeft - 1 < length then return none
    else do
      let value ← Block.read data (pos + 1) length
      return some (value, pos + 1 + length, bytesLeft - 1 - length)

/-- `process_hello` before the handler is asked, in the memory of the command. -/
def parseHello (data : List UInt8) : Except Crash (Except MechErrno (List UInt8 × List UInt8)) :=
  if data.length < 6 then .ok (.error .eproto)
  else do
    let name ← Block.read data 0 6
    if name ≠ helloName then return .error .eproto
    else do
      match ← readField data 6 (data.length - 6) with
      | none => return .error .eproto
      | some (username, pos, bytesLeft) => do
        match ← readField data pos bytesLeft with
        | none => return .error .eproto
        | some (password, _, bytesLeft) => if bytesLeft > 0 then return .error .eproto else return .ok (username, password)

variable {data rest : List UInt8} {pos left : ℕ}

theorem readField_nil (data : List UInt8) (pos : ℕ) : readField data pos 0 = .ok none := rfl

theorem readField_cons {n : UInt8} (h : data.drop pos = n :: rest) : readField data pos (rest.length + 1) =
    .ok (if rest.length < n.toNat then none else some (rest.take n.toNat, pos + 1 + n.toNat, rest.length - n.toNat)) := by
  have hlen := congrArg length h
  rw [length_drop, length_cons] at hlen
  have hread : Block.read data pos 1 = .ok [n] := by
    rw [Block.read_ok (by omega), h]
    rfl
  unfold readField
  rw [if_neg (by omega), hread, Block.ok_bind]
  dsimp only [headD_cons]
  rw [Nat.add_sub_cancel]
  by_cases hshort : rest.length < n.toNat
  · rw [if_pos hshort, if_pos hshort]
    rfl
  · have htail : data.drop (pos + 1) = rest := by
      rw [← drop_drop, h]
      rfl
    rw [if_neg hshort, if_neg hshort, Block.read_ok (by omega), Block.ok_bind, htail]
    rfl

theorem parseHello_eq (data : List UInt8) : parseHello data = .ok (credentials data) := by
  unfold parseHello credentials
  by_cases hlen : data.length < 6
  · rw [if_pos hlen, if_pos]
    intro h
    have := congrArg length h
    rw [length_take, show helloName.length = 6 from rfl] at this
    omega
  rw [if_neg hlen, Block.read_ok (by omega), Block.ok_bind, drop_zero]
  by_cases hname : data.take 6 ≠ helloName
  · rw [if_pos hname, if_pos hname]
    rfl
  rw [if_neg hname, if_neg hname]
  have hrest : (data.drop 6).length = data.length - 6 := length_drop
  cases hd : data.drop 6 with
  | nil =>
    rw [hd] at hrest
    rw [← hrest, length_nil, readField_nil, Block.ok_bind]
    rfl
  | cons n rest =>
    rw [hd, length_cons] at hrest
    rw [← hrest, readField_cons hd, Block.ok_bind]
    by_cases hshort : rest.length < n.toNat
    · rw [if_pos hshort]
      dsimp only
      rw [if_pos hshort]
      rfl
    rw [if_neg hshort]
    dsimp only
    rw [if_neg hshort]
    have hleft : (rest.drop n.toNat).length = rest.length - n.toNat := length_drop
    have hd' : data.drop (6 + 1 + n.toNat) = rest.drop n.toNat := by
      rw [← drop_drop, ← drop_drop, hd]
      rfl
    cases hp : rest.drop n.toNat with
    | nil =>
      rw [hp] at hleft
      rw [← hleft, length_nil, readField_nil, Block.ok_bind]
      rfl
    | cons k password =>
      rw [hp, length_cons] at hleft
      rw [← hleft, readField_cons (hd'.trans hp), Block.ok_bind]
      by_cases hshort' : password.length < k.toNat
      · rw [if_pos hshort']
        dsimp only
        rw [if_pos hshort']
        rfl
      rw [if_neg hshort']
      dsimp only
      rw [if_neg hshort']
      by_cases hmore : password.length - k.toNat > 0
      · rw [if_pos hmore, if_pos hmore]
        rfl
      · rw [if_neg hmore, if_neg hmore]
        rfl

theorem credentials_error {e : MechErrno} (h : credentials data = .error e) : e = .eproto := by
  unfold credentials at h
  split_ifs at h
  · exact (error.inj h).symm
  · split at h
    · exact (error.inj h).symm
    · split_ifs at h
      · exact (error.inj h).symm
      · split at h
        · exact (error.inj h).symm
        · split_ifs at h
          · exact (error.inj h).symm
          · exact (error.inj h).symm

variable {username password : List UInt8}

theorem credentials_command (hu : username.length < 256) (hp : password.length < 256) :
    credentials (helloCommand username password) = .ok (username, password) := by
  have hun : (UInt8.ofNat username.length).toNat = username.length := UInt8.toNat_ofNat_of_lt' hu
  have hpn : (UInt8.ofNat password.length).toNat = password.length := UInt8.toNat_ofNat_of_lt' hp
  have htake : (helloCommand username password).take 6 = helloName := rfl
  have hdrop : (helloCommand username password).drop 6 =
      UInt8.ofNat username.length :: (username ++ UInt8.ofNat password.length :: password) := rfl
  unfold credentials
  rw [if_neg (not_not_intro htake), hdrop]
  dsimp only
  rw [hun, if_neg (by rw [length_append]; omega), drop_left]
  dsimp only
  rw [hpn, if_neg (Nat.lt_irrefl _), if_neg (by omega), take_left, take_length]

theorem credentials_ok (h : credentials data = .ok (username, password)) :
    username.length < 256 ∧ password.length < 256 ∧ data = helloCommand username password := by
  unfold credentials at h
  split_ifs at h with hname
  split at h
  · cases h
  · rename_i n rest hd
    split_ifs at h with hshort
    split at h
    · cases h
    · rename_i k last hp
      split_ifs at h with hshort' hmore
      cases h
      have hulen : (rest.take n.toNat).length = n.toNat := by
        rw [length_take]
        omega
      have hlast : last.take k.toNat = last := take_of_length_le (by omega)
      have hplen : last.length = k.toNat := by omega
      refine ⟨Nat.lt_of_le_of_lt (Nat.le_of_eq hulen) n.toNat_lt, by rw [hlast, hplen]; exact k.toNat_lt, ?_⟩
      unfold helloCommand
      rw [hlast, hulen, hplen, UInt8.ofNat_toNat, UInt8.ofNat_toNat]
      calc data = data.take 6 ++ data.drop 6 := (take_append_drop 6 data).symm
        _ = helloName ++ n :: rest := by rw [not_not.mp hname, hd]
        _ = helloName ++ n :: (rest.take n.toNat ++ rest.drop n.toNat) := by rw [take_append_drop]
        _ = helloName ++ n :: (rest.take n.toNat ++ k :: last) := by rw [hp]
        _ = helloName ++ n :: rest.take n.toNat ++ k :: last := by rw [append_assoc, cons_append]

/-- What is done with the strings: a server with a connection to a handler sends them in a request, one without welcomes the
client. -/
def Accepts (data username password : List UInt8) : Prop :=
  ∀ (m : PlainServer) rc session, m.session.zapConnect = .ok (rc, session) →
    (rc = .ok → ∀ r m', m.processHello data = .ok (r, m') → ∃ asked reply m1,
      ({ m with session := session } : PlainServer).sendZapRequest username password = .ok asked ∧
      asked.receiveAndProcessZapReply = .ok (reply, m1) ∧ m'.toZapMechanism = m1.toZapMechanism) ∧
    (rc ≠ .ok → m.processHello data = .ok (.ok, { m with session := session, state := .sendingWelcome }))

theorem credentials_accepts (h : credentials data = .ok (username, password)) : Accepts data username password := by
  intro m rc session hz
  unfold processHello
  rw [h]
  simp only [hz, Except.bind, bind]
  refine ⟨fun hrc r m' hx => ?_, fun hrc => by rw [if_neg hrc]; rfl⟩
  rw [if_pos hrc] at hx
  obtain ⟨asked, hasked, hx⟩ := bind_ok hx
  obtain ⟨⟨reply, m1⟩, hreply, hx⟩ := bind_ok hx
  refine ⟨asked, reply, m1, hasked, hreply, ?_⟩
  revert hx
  dsimp only
  split <;> rintro ⟨⟩ <;> rfl

/-- A HELLO command gives the server the user name and the password that the client has put into it. Of any command the server
reads no more than it is, and it is either such a command, of which both strings are recovered and handed on, or is refused
with EPROTO. -/
theorem hello_exact : (∀ m : PlainClient, m.base.options.plainUsername.length ≤ 255 → m.base.options.plainPassword.length ≤ 255 →
      ∃ msg, m.produceHello = .ok msg ∧ msg.data = helloCommand m.base.options.plainUsername m.base.options.plainPassword ∧
        parseHello msg.data = .ok (.ok (m.base.options.plainUsername, m.base.options.plainPassword))) ∧
    ∀ data, parseHello data = .ok (credentials data) ∧
      ((∃ username password, username.length ≤ 255 ∧ password.length ≤ 255 ∧ data = helloCommand username password ∧
        credentials data = .ok (username, password) ∧ Accepts data username password) ∨
      (¬∃ username password, username.length ≤ 255 ∧ password.length ≤ 255 ∧ data = helloCommand username password) ∧
        credentials data = .error .eproto ∧ ∀ m : PlainServer, m.processHello data = .ok (.error .eproto, m)) := by
  refine ⟨fun m hu hp => ?_, fun data => ⟨parseHello_eq data, ?_⟩⟩
  · have hu' := Nat.lt_succ_of_le hu
    have hp' := Nat.lt_succ_of_le hp
    refine ⟨.ofData (helloCommand m.base.options.plainUsername m.base.options.plainPassword), ?_, rfl, ?_⟩
    · unfold PlainClient.produceHello
      dsimp only
      rw [Block.assert_ok hu', Block.ok_bind, Block.assert_ok hp']
      rfl
    · exact (parseHello_eq _).trans (congrArg ok (credentials_command hu' hp'))
  · cases hc : credentials data with
    | ok r =>
      obtain ⟨username, password⟩ := r
      obtain ⟨hu, hp, hd⟩ := credentials_ok hc
      exact .inl ⟨username, password, Nat.le_of_lt_succ hu, Nat.le_of_lt_succ hp, hd, rfl, credentials_accepts hc⟩
    | error e =>
      obtain rfl := credentials_error hc
      refine .inr ⟨?_, rfl, fun m => ?_⟩
      · rintro ⟨username, password, hu, hp, rfl⟩
        rw [credentials_command (Nat.lt_succ_of_le hu) (Nat.lt_succ_of_le hp)] at hc
        cases hc
      · unfold processHello
        rw [hc]

/-- A user and a password of three bytes. -/
theorem hello_exact_user : ∃ msg, (PlainClient.new { MechanismOptions.new 5 with
      plainUsername := ascii ['z', 'm', 'q'], plainPassword := ascii ['k', 'e', 'y'] }).produceHello = .ok msg ∧
    parseHello msg.data = .ok (.ok (ascii ['z', 'm', 'q'], ascii ['k', 'e', 'y'])) ∧
    Accepts msg.data (ascii ['z', 'm', 'q']) (ascii ['k', 'e', 'y']) := by
  obtain ⟨msg, hmsg, hdata, hparse⟩ := hello_exact.1 (.new { MechanismOptions.new 5 with
    plainUsername := ascii ['z', 'm', 'q'], plainPassword := ascii ['k', 'e', 'y'] }) (by decide) (by decide)
  refine ⟨msg, hmsg, hparse, ?_⟩
  rcases (hello_exact.2 msg.data).2 with ⟨u, p, -, -, -, hc, ha⟩ | ⟨hno, -⟩
  · have heq := ok.inj ((hello_exact.2 msg.data).1.symm.trans hparse)
    obtain ⟨rfl, rfl⟩ := Prod.mk.inj (ok.inj (hc.symm.trans heq))
    exact ha
  · exact absurd ⟨_, _, by decide, by decide, hdata⟩ hno

end PlainServer

end Zmq
