import LibZmq.Sockets.Outpipes
import LibZmq.Sockets.Stream

/-! What is sent through a STREAM socket. Its user sends pairs of frames: the identity of a connection, with more, and
the data for it. -/

namespace Zmq

open StreamT

structure StreamUser (P M : Type) where
  served : Served (StreamT P) P M
  /-- the user has sent the first frame of a pair -/
  within : Bool
  /-- whether each frame was meant to be data, and whether it has been taken to be data -/
  parts : List (Bool × Bool)

namespace StreamUser

open StreamT (Single base receiver)

variable {P M : Type}

abbrev Op (P M : Type) := Call (Served.Op P M (List UInt8))

def new (nextRid : UInt32) : StreamUser P M := ⟨Served.new (.new nextRid), false, []⟩

variable [DecidableEq P]

def Ready (s : StreamUser P M) : Op P M → Prop
  | .other op => s.served.Ready Single op
  | .recv _ => True

instance (s : StreamUser P M) (op : Op P M) : Decidable (s.Ready op) := by
  cases op <;> unfold Ready <;> infer_instance

/-- A frame that is refused is not sent. The flag for more is ignored on data. -/
def xsend (s : StreamUser P M) (msg : Msg) : Except SocketFault (StreamUser P M) :=
  (s.served.socket.xsend s.served.ends msg).map fun x => {
    served := s.served.after s.served.ends x.2
    within := if x.1 = .ok then !s.within && msg.hasMore else s.within
    parts := s.parts ++ [(s.within, s.served.socket.moreOut)] }

def run (s : StreamUser P M) : Op P M → Except SocketFault (StreamUser P M)
  | .other (.xsend msg) => s.xsend msg
  | .other op => (s.served.run base op).map fun served => { s with served := served }
  | .recv polls => do
    let (_, served) ← receiver.polls polls s.served
    let (_, served) ← StreamT.recv served
    return { s with served := served }

def Start (s : StreamUser P M) : Prop := ∃ nextRid, s = new nextRid

abbrev Step : StreamUser P M → Op P M → StreamUser P M → Prop := Does Ready run

def sentTo (e : Ends P) (pipe : P) (msg : Msg) : Ends P :=
  if msg.data = [] then e.terminate pipe false
  else e.setOutlet pipe ((e.outlets pipe).accept { msg with flags := msg.flags &&& ~~~Msg.more }).flush

def Spares (p : P) : Op P M → Prop
  | .other (.xsend _) => False
  | .other (.pipeTerminated q) => q ≠ p
  | _ => True

def Delivers (s : StreamUser P M) : Prop :=
  ∀ (identity : Msg) (p : P), identity.hasMore = true → p ∈ s.served.attached → s.served.ends.ids p = identity.data →
    (s.served.ends.outlets p).checkWrite.1 = true →
    ∃ s1, s.run (.other (.xsend identity)) = .ok s1 ∧ s1.within = true ∧
      ∀ ops s2, Run (fun s => s = s1) Step ops s2 → (∀ op ∈ ops, Spares p op) →
        ∀ data : Msg, (s2.served.ends.outlets p).checkWrite.1 = true →
          ∃ s3, s2.run (.other (.xsend data)) = .ok s3 ∧ s3.within = false ∧ s3.served.ends = sentTo s2.served.ends p data

/-- Identities and data are taken for what they are, and pairs are delivered. -/
structure InSync (s : StreamUser P M) : Prop where
  parts : ∀ x ∈ s.parts, x.1 = x.2
  delivers : s.within = false → s.Delivers

/-- Each identity is sent with more. -/
def Keeps (s : StreamUser P M) : Op P M → Prop
  | .other (.xsend msg) => s.within = false → msg.hasMore = true
  | _ => True

instance (s : StreamUser P M) (op : Op P M) : Decidable (s.Keeps op) := by
  unfold Keeps
  split <;> infer_instance

structure Same (s s' : Served (StreamT P) P M) : Prop where
  outpipes : s'.socket.outpipes = s.socket.outpipes
  currentOut : s'.socket.currentOut = s.socket.currentOut
  moreOut : s'.socket.moreOut = s.socket.moreOut
  ids : s'.ends.ids = s.ends.ids
  attached : s'.attached = s.attached

section

variable {s s' s1 : Served (StreamT P) P M} {t t' : StreamT P} {e e' : Ends P} {rc : Bool} {attached : Finset P}

omit [DecidableEq P] in
theorem Same.refl : Same s s := ⟨rfl, rfl, rfl, rfl, rfl⟩

omit [DecidableEq P] in
theorem Same.trans (h : Same s s1) (h' : Same s1 s') : Same s s' where
  outpipes := h'.outpipes.trans h.outpipes
  currentOut := h'.currentOut.trans h.currentOut
  moreOut := h'.moreOut.trans h.moreOut
  ids := h'.ids.trans h.ids
  attached := h'.attached.trans h.attached

theorem xrecv_same {got : Option Msg} (hx : s.socket.xrecv s.ends = .ok (got, t', e')) : Same s (s.after s.ends (t', e')) := by
  unfold xrecv at hx
  split_ifs at hx
  · cases hx
    exact ⟨rfl, rfl, rfl, rfl, rfl⟩
  · cases hx
    exact ⟨rfl, rfl, rfl, rfl, rfl⟩
  · obtain ⟨⟨r, fq, inlets⟩, -, hx⟩ := bind_ok hx
    rcases r with _ | ⟨p, m⟩
    · cases hx
      exact ⟨rfl, rfl, rfl, rfl, rfl⟩
    · dsimp only at hx
      split_ifs at hx
      cases hx
      exact ⟨rfl, rfl, rfl, rfl, rfl⟩

theorem xhasIn_same (hx : s.socket.xhasIn s.ends = .ok (rc, t', e')) : Same s (s.after s.ends (t', e')) := by
  unfold xhasIn at hx
  split_ifs at hx
  · cases hx
    exact ⟨rfl, rfl, rfl, rfl, rfl⟩
  · obtain ⟨⟨r, fq, inlets⟩, -, hx⟩ := bind_ok hx
    rcases r with _ | ⟨p, m⟩
    · cases hx
      exact ⟨rfl, rfl, rfl, rfl, rfl⟩
    · dsimp only at hx
      split_ifs at hx
      cases hx
      exact ⟨rfl, rfl, rfl, rfl, rfl⟩

theorem recv_same {got : Option (Msg × Option M)} (hx : recv s = .ok (got, s')) : Same s s' := by
  obtain ⟨⟨r, t', e'⟩, hrecv, hx⟩ := bind_ok hx
  have h := xrecv_same hrecv
  rcases r with _ | m
  · cases hx
    exact h
  · split_ifs at hx
    · cases hx
      exact ⟨h.outpipes, h.currentOut, h.moreOut, h.ids, h.attached⟩
    · cases hx
      exact ⟨h.outpipes, h.currentOut, h.moreOut, h.ids, h.attached⟩
    · obtain ⟨x, -, hx⟩ := bind_ok hx
      cases hx
      exact ⟨h.outpipes, h.currentOut, h.moreOut, h.ids, h.attached⟩

theorem poll_same (hx : poll s = .ok (rc, s')) : Same s s' := by
  obtain ⟨⟨r, t', e'⟩, hrecv, hx⟩ := bind_ok hx
  have h := xhasIn_same hrecv
  split_ifs at hx
  · cases hx
    exact h
  · obtain ⟨⟨r, fq, inlets⟩, -, hx⟩ := bind_ok hx
    rcases r with _ | ⟨p, m⟩
    · cases hx
      exact h
    · cases hx
      exact ⟨h.outpipes, h.currentOut, h.moreOut, h.ids, h.attached⟩

theorem polls_same {n : ℕ} {bs : List Bool} (hx : receiver.polls n s = .ok (bs, s')) : Same s s' := by
  induction n generalizing s bs with
  | zero =>
    cases hx
    exact .refl
  | succ n ih =>
    unfold Receiver.polls at hx
    cases hp : poll s with
    | error f =>
      rw [show receiver.poll s = .error f from hp] at hx
      cases hx
    | ok x =>
      rw [show receiver.poll s = .ok x from hp] at hx
      obtain ⟨y, hy, hpair⟩ := map_ok hx
      cases hpair
      exact (poll_same hp).trans (ih hy)

theorem identifyPeer_sent {p : P} (hd : Directory t.outpipes e.ids attached) (hp : p ∉ attached)
    (hx : t.identifyPeer e p = .ok (t', e')) :
    Directory t'.outpipes e'.ids (insert p attached) ∧ t'.currentOut = t.currentOut ∧ t'.moreOut = t.moreOut := by
  unfold identifyPeer at hx
  dsimp only at hx
  split_ifs at hx with hc hmem hmem
  all_goals
    cases hx
    exact ⟨hd.insert hp hmem, rfl, rfl⟩

theorem run_sent {op : Served.Op P M (List UInt8)} (hop : ∀ m, op ≠ .xsend m) (hr : s.Ready Single op)
    (hd : Directory s.socket.outpipes s.ends.ids s.attached) (hx : s.run base op = .ok s') :
    Directory s'.socket.outpipes s'.ends.ids s'.attached ∧ s'.socket.moreOut = s.socket.moreOut ∧
      (s'.socket.currentOut = s.socket.currentOut ∨
        ∃ p, op = .pipeTerminated p ∧ s.socket.currentOut = some p ∧ s'.socket.currentOut = none) := by
  cases op with
  | attach p self frames =>
    obtain ⟨⟨t', e'⟩, hattach, rfl⟩ := map_ok hx
    obtain ⟨⟨t1, e1⟩, hid, hpair⟩ := map_ok hattach
    cases hpair
    -- the identity that the pipe has had does not matter
    have hcleared : Directory s.socket.outpipes (Function.update s.ends.ids p []) s.attached := by
      refine hd.congr fun q hq => Function.update_of_ne ?_ _ _
      rintro rfl
      exact hr.1 hq
    obtain ⟨hdir, hcur, hmore⟩ := identifyPeer_sent hcleared hr.1 hid
    exact ⟨hdir, hmore, .inl hcur⟩
  | deliver p frames =>
    cases hx
    exact ⟨hd, rfl, .inl rfl⟩
  | drift p o =>
    cases hx
    refine ⟨?_, rfl, .inl rfl⟩
    split_ifs <;> exact hd
  | readActivated p =>
    obtain ⟨⟨t', e'⟩, hread, rfl⟩ := map_ok hx
    change s.socket.xreadActivated _ p = _ at hread
    unfold xreadActivated at hread
    split_ifs at hread
    cases hread
    exact ⟨hd, rfl, .inl rfl⟩
  | writeActivated p n =>
    obtain ⟨t', hact, rfl⟩ := map_ok hx
    change s.socket.xwriteActivated p = _ at hact
    unfold xwriteActivated at hact
    split at hact
    · cases hact
    · rename_i identity outpipe hfind
      split_ifs at hact
      cases hact
      exact ⟨hd.mark (AList.mem_lookup_iff.mpr (List.mem_of_find?_eq_some hfind)), rfl, .inl rfl⟩
  | pipeTerminated p =>
    obtain ⟨t', hterm, rfl⟩ := map_ok hx
    change s.socket.xpipeTerminated s.ends p = _ at hterm
    unfold xpipeTerminated at hterm
    split_ifs at hterm with hmem hcur
    · cases hterm
      exact ⟨hd.erase hr, rfl, .inr ⟨p, rfl, hcur, rfl⟩⟩
    · cases hterm
      exact ⟨hd.erase hr, rfl, .inl rfl⟩
  | xsetsockopt rid =>
    cases hx
    dsimp only [base]
    unfold xsetsockopt
    split_ifs
    · exact ⟨hd, rfl, .inl rfl⟩
    · exact ⟨hd, rfl, .inl rfl⟩
  | xsend m => exact absurd rfl (hop m)

theorem sendIdentity_sent {rc : RouterRc} {m : Msg} (hd : Directory t.outpipes e.ids attached)
    (hmore : t.moreOut = false) (hcur : t.currentOut = none) (hx : t.sendIdentity e m = (rc, t', e')) :
    Directory t'.outpipes e'.ids attached ∧ (rc = .ok → t'.moreOut = true) ∧
      (rc ≠ .ok → t'.moreOut = false ∧ t'.currentOut = none) := by
  unfold sendIdentity at hx
  split_ifs at hx
  · split at hx
    · rename_i outpipe hl
      dsimp only at hx
      split_ifs at hx
      · cases hx
        exact ⟨hd, fun _ => rfl, fun hc => absurd rfl hc⟩
      · cases hx
        exact ⟨hd.mark hl, nofun, fun _ => ⟨hmore, hcur⟩⟩
    · cases hx
      exact ⟨hd, nofun, fun _ => ⟨hmore, hcur⟩⟩
  · cases hx
    exact ⟨hd, fun _ => rfl, fun hc => absurd rfl hc⟩

theorem sendPart_sent {m : Msg} (hx : t.sendPart e m = (t', e')) :
    t'.outpipes = t.outpipes ∧ t'.moreOut = false ∧ t'.currentOut = none ∧ e'.ids = e.ids := by
  unfold sendPart at hx
  dsimp only at hx
  split at hx
  · cases hx
    exact ⟨rfl, rfl, rfl, rfl⟩
  · split_ifs at hx
    · cases hx
      exact ⟨rfl, rfl, rfl, rfl⟩
    · cases hx
      exact ⟨rfl, rfl, rfl, rfl⟩
    · cases hx
      exact ⟨rfl, rfl, rfl, rfl⟩

end

structure Aligned (s : StreamUser P M) : Prop where
  parts : ∀ x ∈ s.parts, x.1 = x.2
  more : s.served.socket.moreOut = s.within
  idle : s.within = false → s.served.socket.currentOut = none
  directory : Directory s.served.socket.outpipes s.served.ends.ids s.served.attached

section

variable {s s' s1 : StreamUser P M} {m : Msg} {p : P} {op : Op P M} {ops : List (Op P M)}

theorem xsend_within (hm : s.served.socket.moreOut = true) : s.xsend m = .ok {
    served := s.served.after s.served.ends (s.served.socket.sendPart s.served.ends m)
    within := !s.within && m.hasMore
    parts := s.parts ++ [(s.within, true)] } := by
  unfold xsend StreamT.xsend
  rw [hm]
  rfl

theorem xsend_first (hm : s.served.socket.moreOut = false) (hc : s.served.socket.currentOut = none) : s.xsend m = .ok {
    served := s.served.after s.served.ends (s.served.socket.sendIdentity s.served.ends m).2
    within := if (s.served.socket.sendIdentity s.served.ends m).1 = .ok then !s.within && m.hasMore else s.within
    parts := s.parts ++ [(s.within, false)] } := by
  unfold xsend StreamT.xsend
  rw [if_pos hc, hm]
  rfl

theorem Aligned.xsend (h : Aligned s) (hk : s.Keeps (.other (.xsend m))) : ∃ s', s.xsend m = .ok s' ∧ Aligned s' := by
  have hparts : ∀ b, s.within = b → ∀ x ∈ s.parts ++ [(s.within, b)], x.1 = x.2 := by
    intro b hb x hx
    rcases List.mem_append.mp hx with hx | hx
    · exact h.parts x hx
    · rw [List.mem_singleton.mp hx]
      exact hb
  cases hw : s.within with
  | true =>
    have hmore := h.more.trans hw
    obtain ⟨⟨t', e'⟩, hx⟩ : ∃ x, s.served.socket.sendPart s.served.ends m = x := ⟨_, rfl⟩
    obtain ⟨hout, hmore', hcur, hids⟩ := sendPart_sent hx
    refine ⟨_, xsend_within hmore, hparts true hw, ?_, fun _ => ?_, ?_⟩
    · rw [hw, hx]
      exact hmore'
    · rw [hx]
      exact hcur
    · dsimp only [Served.after]
      rw [hx, hout, hids]
      exact h.directory
  | false =>
    have hmore := h.more.trans hw
    obtain ⟨⟨rc, t', e'⟩, hx⟩ : ∃ x, s.served.socket.sendIdentity s.served.ends m = x := ⟨_, rfl⟩
    obtain ⟨hdir, hok, hfail⟩ := sendIdentity_sent h.directory hmore (h.idle hw) hx
    refine ⟨_, xsend_first hmore (h.idle hw), hparts false hw, ?_, fun hc => ?_, ?_⟩
    · rw [hx]
      split_ifs with hrc
      · rw [hw, hk hw]
        exact hok hrc
      · rw [hw]
        exact (hfail hrc).1
    · rw [hx] at hc ⊢
      split_ifs at hc with hrc
      · rw [hw, hk hw] at hc
        exact absurd hc.symm Bool.false_ne_true
      · exact (hfail hrc).2
    · rw [hx]
      exact hdir

theorem run_around (hop : ∀ m, op ≠ .other (.xsend m)) (hr : s.Ready op)
    (hd : Directory s.served.socket.outpipes s.served.ends.ids s.served.attached) (hx : s.run op = .ok s') :
    Directory s'.served.socket.outpipes s'.served.ends.ids s'.served.attached ∧ s'.parts = s.parts ∧ s'.within = s.within ∧
      s'.served.socket.moreOut = s.served.socket.moreOut ∧
      (s'.served.socket.currentOut = s.served.socket.currentOut ∨ ∃ p, op = .other (.pipeTerminated p) ∧
        s.served.socket.currentOut = some p ∧ s'.served.socket.currentOut = none) := by
  cases op with
  | other op =>
    have hop' : ∀ m, op ≠ .xsend m := fun m he => hop m (congrArg Call.other he)
    obtain ⟨served, hserved, rfl⟩ : ∃ served, s.served.run base op = .ok served ∧ { s with served := served } = s' := by
      cases op with
      | xsend m => exact absurd rfl (hop' m)
      | _ => exact map_ok hx
    obtain ⟨hdir, hmore, hcur⟩ := run_sent hop' hr hd hserved
    refine ⟨hdir, rfl, rfl, hmore, hcur.imp_right ?_⟩
    rintro ⟨p, rfl, hp⟩
    exact ⟨p, rfl, hp⟩
  | recv n =>
    obtain ⟨⟨bs, s1⟩, hpolls, hx⟩ := bind_ok hx
    obtain ⟨⟨got, s2⟩, hrecv, hx⟩ := bind_ok hx
    cases hx
    have hsame := (polls_same hpolls).trans (recv_same hrecv)
    refine ⟨?_, rfl, rfl, hsame.moreOut, .inl hsame.currentOut⟩
    rw [hsame.outpipes, hsame.ids, hsame.attached]
    exact hd

theorem Aligned.step (h : Aligned s) (hs : Guarded Keeps Step s op s') : Aligned s' := by
  obtain ⟨hk, hr, hx⟩ := hs
  by_cases hop : ∃ m, op = .other (.xsend m)
  · obtain ⟨m, rfl⟩ := hop
    obtain ⟨s1, hx1, h1⟩ := h.xsend hk
    cases hx1.symm.trans hx
    exact h1
  · obtain ⟨hdir, hparts, hwithin, hmore, hcur⟩ := run_around (fun m he => hop ⟨m, he⟩) hr h.directory hx
    refine ⟨?_, ?_, fun hw => ?_, hdir⟩
    · rw [hparts]
      exact h.parts
    · rw [hmore, hwithin]
      exact h.more
    · rcases hcur with hcur | ⟨p, -, -, hcur⟩
      · exact hcur.trans (h.idle (hwithin.symm.trans hw))
      · exact hcur

theorem run_aligned (h : Run Start (Guarded Keeps Step) ops s) : Aligned s := by
  refine h.invariant Aligned (fun s hs => ?_) fun _ _ _ hi hs => hi.step hs
  obtain ⟨nextRid, rfl⟩ := hs
  exact ⟨nofun, rfl, fun _ => rfl, .empty⟩

theorem run_spares (h : Run (fun s => s = s1) Step ops s) (hops : ∀ op ∈ ops, Spares p op)
    (hd : Directory s1.served.socket.outpipes s1.served.ends.ids s1.served.attached)
    (hm : s1.served.socket.moreOut = true) (hc : s1.served.socket.currentOut = some p) (hw : s1.within = true) :
    Directory s.served.socket.outpipes s.served.ends.ids s.served.attached ∧ s.served.socket.moreOut = true ∧
      s.served.socket.currentOut = some p ∧ s.within = true := by
  induction h with
  | nil hs =>
    subst hs
    exact ⟨hd, hm, hc, hw⟩
  | @snoc ops s0 op s2 hrun hstep ih =>
    obtain ⟨hdir, hmore, hcur, hwithin⟩ := ih fun op hop => hops op (List.mem_append_left _ hop)
    have hspares : Spares p op := hops op (List.mem_append_right _ (List.mem_singleton_self op))
    have hop : ∀ m, op ≠ .other (.xsend m) := by
      rintro m rfl
      exact hspares
    obtain ⟨hdir', -, hwithin', hmore', hcur'⟩ := run_around hop hstep.1 hdir hstep.2
    refine ⟨hdir', hmore'.trans hmore, ?_, hwithin'.trans hwithin⟩
    rcases hcur' with hcur' | ⟨q, rfl, hq, -⟩
    · exact hcur'.trans hcur
    · exact absurd (Option.some.inj (hq.symm.trans hcur)) hspares

theorem Aligned.delivers (h : Aligned s) (hw : s.within = false) : s.Delivers := by
  intro identity p hmore hp hid hwrite
  obtain ⟨active, hl⟩ := h.directory.keyed p hp
  rw [hid] at hl
  have hx : s.served.socket.sendIdentity s.served.ends identity =
      (.ok, { s.served.socket with moreOut := true, currentOut := some p },
        s.served.ends.setOutlet p (s.served.ends.outlets p).checkWrite.2) := by
    unfold sendIdentity
    rw [if_pos hmore, hl]
    dsimp only
    rw [if_pos hwrite]
  refine ⟨_, xsend_first (h.more.trans hw) (h.idle hw), ?_, fun ops s2 hrun hops data hwrite2 => ?_⟩
  · rw [hx, hw, hmore]
    rfl
  · rw [hx, hw, hmore] at hrun
    obtain ⟨-, hmore2, hcur2, hwithin2⟩ := run_spares hrun hops h.directory rfl rfl rfl
    refine ⟨_, xsend_within hmore2, ?_, ?_⟩
    · rw [hwithin2]
      rfl
    · change (s2.served.socket.sendPart s2.served.ends data).2 = _
      unfold sendPart sentTo
      rw [hcur2]
      dsimp only
      rw [Outlet.write_done hwrite2]
      by_cases hd : data.data = []
      · rw [if_pos hd, if_pos hd]
      · rw [if_neg hd, if_neg hd, if_pos rfl]

/-- As long as each identity is sent with more, nothing is taken for what it is not, and pairs are delivered. -/
theorem stream_in_sync {ops : List (Op P M)} (h : Run Start (Guarded Keeps Step) ops s) : InSync s :=
  ⟨(run_aligned h).parts, (run_aligned h).delivers⟩

end

open LoadBalancer (frame endOf)
open RouterT (autoId)

/-- The identity of the first connection, when `next_rid` has started at 0, with more or not. -/
def firstId (more : Bool) : Msg := ⟨.vsm, if more then Msg.more else 0, autoId 0⟩

/-- A pair is sent, another after the pipe has terminated, and an empty message. -/
def pairSent : List (Op ℕ Unit) :=
  [.other (.attach 0 (endOf 0) []), .other (.xsend (firstId true)), .other (.xsend (frame 1)),
    .other (.xsend (firstId true)), .other (.pipeTerminated 0), .other (.xsend (frame 2)), .other (.xsend (firstId true))]

theorem stream_in_sync_pairs : ∃ s : StreamUser ℕ Unit, Run Start (Guarded Keeps Step) pairSent s ∧
    s.parts = [(false, false), (true, true), (false, false), (true, true), (false, false)] ∧ InSync s :=
  exists_run (P := fun s => s.parts = [(false, false), (true, true), (false, false), (true, true), (false, false)])
    (⟨0, rfl⟩ : Start (new 0)) (by decide) fun _ hs hparts => ⟨hparts, stream_in_sync hs⟩

/-- After an identity without more the next identity is taken to be data, and its data to be an identity. -/
theorem stream_can_shift : ∃ s : StreamUser ℕ Unit, Run Start Step
    [.other (.attach 0 (endOf 0) []), .other (.xsend (firstId false)), .other (.xsend (firstId true)),
      .other (.xsend (frame 1))] s ∧
    s.parts = [(false, false), (false, true), (true, false)] ∧ (s.served.ends.outlets 0).written = [] ∧ ¬ InSync s := by
  refine exists_run_free (P := fun s => s.parts = [(false, false), (false, true), (true, false)] ∧
    (s.served.ends.outlets 0).written = []) (⟨0, rfl⟩ : Start (new 0)) (by decide)
    fun s _ ⟨hparts, hwritten⟩ => ⟨hparts, hwritten, fun hc => ?_⟩
  have hmem : (false, true) ∈ s.parts := by
    rw [hparts]
    exact List.mem_cons_of_mem _ List.mem_cons_self
  exact Bool.false_ne_true (hc.parts _ hmem)

end StreamUser

end Zmq
