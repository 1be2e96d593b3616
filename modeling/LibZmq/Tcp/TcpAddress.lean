import Mathlib.Data.List.TakeWhile
import Mathlib.Tactic

/-! `tcp_address_t`. A name is split from the right, at the `;` behind a source address, at the `:` before a port and at the
`%` before a zone. -/

namespace Zmq

def isspace (c : UInt8) : Bool := c == 32 || (9 ≤ c && c ≤ 13)

def isdigit (c : UInt8) : Bool := 48 ≤ c && c ≤ 57

def isalpha (c : UInt8) : Bool := (65 ≤ c && c ≤ 90) || (97 ≤ c && c ≤ 122)

def digits (s : List UInt8) : ℕ := s.foldl (fun n c => 10 * n + (c.toNat - 48)) 0

/-- `(int) strtol (s, NULL, 10)`, with a `long` of 64 bits -/
def atoi (s : List UInt8) : ℤ :=
  let s := s.dropWhile isspace
  let n := digits ((if s.head? = some 45 ∨ s.head? = some 43 then s.tail else s).takeWhile isdigit)
  (if s.head? = some 45 then max (-2 ^ 63) (-n) else min n (2 ^ 63 - 1) : ℤ).bmod (2 ^ 32)

/-- What is before and behind the last `c`, as `strrchr` finds it. -/
def splitLast (c : UInt8) : List UInt8 → Option (List UInt8 × List UInt8)
  | [] => none
  | x :: s =>
    match splitLast c s with
    | some (before, behind) => some (x :: before, behind)
    | none => if x = c then some ([], s) else none

inductive Family where
  | inet
  | inet6
deriving DecidableEq

/-- The length of `sin_addr` or `sin6_addr`. -/
def Family.size : Family → ℕ
  | .inet => 4
  | .inet6 => 16

structure SockAddr where
  family : Family
  bytes : List UInt8
  sized : bytes.length = family.size
  port : UInt16
  scopeId : UInt32
deriving DecidableEq

def SockAddr.setPort (a : SockAddr) (port : UInt16) (zoneId : UInt32) : SockAddr :=
  if a.family = .inet6 then { a with port := port, scopeId := zoneId } else { a with port := port }

/-- `none` is `AF_UNSPEC`. -/
structure TcpAddress where
  address : Option SockAddr
  sourceAddress : Option SockAddr
  hasSrcAddr : Bool
deriving DecidableEq

inductive ResolveFault where
  /-- `std::out_of_range`, thrown by `at` -/
  | outOfRange
deriving DecidableEq

/-- What the system knows. All addresses are found. -/
structure Lookups where
  ifNametoindex : List UInt8 → UInt32
  resolveInterface : List UInt8 → Bool → Bool → SockAddr
  resolveHostname : List UInt8 → Bool → Bool → SockAddr

def stripBrackets (s : List UInt8) : List UInt8 :=
  if 2 ≤ s.length ∧ s.head? = some 91 ∧ s.getLast? = some 93 then s.tail.dropLast else s

namespace Lookups

variable (l : Lookups)

def zoneId (ifStr : List UInt8) : UInt32 :=
  if ifStr.head?.any isalpha then l.ifNametoindex ifStr else UInt32.ofInt (atoi ifStr)

/-- The address without its zone, and the zone; `none` for `EINVAL`. -/
def splitZone (addrStr : List UInt8) : Except ResolveFault (Option (List UInt8 × UInt32)) :=
  match splitLast 37 addrStr with
  | none => .ok (some (addrStr, 0))
  | some (addr, ifStr) =>
    if ifStr = [] then .error .outOfRange
    else if l.zoneId ifStr = 0 then .ok none
    else .ok (some (addr, l.zoneId ifStr))

/-- `none` for `EINVAL` -/
def parsePort (portStr : List UInt8) : Option UInt16 :=
  if portStr = [42] ∨ portStr = [48] then some 0
  else if UInt16.ofInt (atoi portStr) = 0 then none
  else some (UInt16.ofInt (atoi portStr))

/-- `resolve` of a name without a source address, up to the address with its port; `none` for `EINVAL`. -/
def resolvePart (locl ipv6 isSrc : Bool) (name : List UInt8) : Except ResolveFault (Option SockAddr) := do
  match splitLast 58 name with
  | none => return none
  | some (addrStr, portStr) =>
    match ← l.splitZone (stripBrackets addrStr) with
    | none => return none
    | some (addrStr, zoneId) =>
      match parsePort portStr with
      | none => return none
      | some port =>
        let a := if locl || isSrc then l.resolveInterface addrStr ipv6 isSrc else l.resolveHostname addrStr ipv6 isSrc
        return some (a.setPort port zoneId)

/-- `false` is -1, with `errno` at `EINVAL`. -/
def resolve (t : TcpAddress) (name : List UInt8) (locl ipv6 : Bool) : Except ResolveFault (Bool × TcpAddress) := do
  match splitLast 59 name with
  | none =>
    match ← l.resolvePart locl ipv6 false name with
    | none => return (false, t)
    | some a => return (true, { t with address := some a })
  | some (srcName, name) =>
    match ← l.resolvePart locl ipv6 true srcName with
    | none => return (false, t)
    | some src =>
      let t := { t with sourceAddress := some src, hasSrcAddr := true }
      match ← l.resolvePart locl ipv6 false name with
      | none => return (false, t)
      | some a => return (true, { t with address := some a })

def Decimal (bound : ℕ) (s : List UInt8) : Prop := s ≠ [] ∧ s.all isdigit = true ∧ digits s < bound

instance (bound : ℕ) (s : List UInt8) : Decidable (Decimal bound s) :=
  inferInstanceAs (Decidable (s ≠ [] ∧ s.all isdigit = true ∧ digits s < bound))

def PortText (s : List UInt8) : Prop := s = [42] ∨ Decimal (2 ^ 16) s

/-- An interface, or the number of one. -/
def ZoneText (s : List UInt8) : Prop :=
  if s.head?.any isalpha then l.ifNametoindex s ≠ 0 else Decimal (2 ^ 32) s ∧ digits s ≠ 0

instance (s : List UInt8) : Decidable (PortText s) := inferInstanceAs (Decidable (s = [42] ∨ Decimal (2 ^ 16) s))

/-- The port and, if there is one, the zone of a part are as they should be. -/
def WellFormed (name : List UInt8) (port : ℕ) : Prop :=
  ∃ addrStr portStr, splitLast 58 name = some (addrStr, portStr) ∧ PortText portStr ∧
    (∀ x ∈ splitLast 37 (stripBrackets addrStr), l.ZoneText x.2) ∧ port = if portStr = [42] then 0 else digits portStr

def EmptyZone (name : List UInt8) : Prop :=
  ∃ addrStr portStr addr, splitLast 58 name = some (addrStr, portStr) ∧ splitLast 37 (stripBrackets addrStr) = some (addr, [])

/-- The zone is known or `atoi` makes something of it, and so with the port. -/
def Numeric (name : List UInt8) : Prop :=
  ∃ addrStr portStr, splitLast 58 name = some (addrStr, portStr) ∧
    (∀ x ∈ splitLast 37 (stripBrackets addrStr), x.2 ≠ [] ∧ l.zoneId x.2 ≠ 0) ∧
    (portStr = [42] ∨ portStr = [48] ∨ UInt16.ofInt (atoi portStr) ≠ 0)

/-- What is wanted of `resolve`: it returns, and 0 only for parts as they should be, whose ports are then set. -/
def Exact (t : TcpAddress) (name : List UInt8) (locl ipv6 : Bool) : Prop :=
  ∃ rc t', l.resolve t name locl ipv6 = .ok (rc, t') ∧ (rc = true → match splitLast 59 name with
    | none => ∃ a, t'.address = some a ∧ l.WellFormed name a.port.toNat
    | some (srcName, name) => (∃ a, t'.sourceAddress = some a ∧ l.WellFormed srcName a.port.toNat) ∧
        ∃ a, t'.address = some a ∧ l.WellFormed name a.port.toNat)

variable {l} {s name : List UInt8} {locl ipv6 isSrc : Bool}

@[simp] theorem setPort_port (a : SockAddr) (port : UInt16) (zoneId : UInt32) : (a.setPort port zoneId).port = port := by
  unfold SockAddr.setPort
  split_ifs <;> rfl

theorem atoi_decimal (h : Decimal (2 ^ 16) s) : atoi s = digits s := by
  obtain ⟨hne, hall, hlt⟩ := h
  have htake : s.takeWhile isdigit = s := List.takeWhile_eq_self_iff.mpr (List.all_eq_true.mp hall)
  cases s with
  | nil => exact absurd rfl hne
  | cons c s =>
    have hc : isdigit c = true := List.all_eq_true.mp hall c List.mem_cons_self
    have hge : 48 ≤ c.toNat := by
      simp only [isdigit, Bool.and_eq_true, decide_eq_true_eq, UInt8.le_iff_toNat_le] at hc
      exact hc.1
    have hspace : isspace c = false := by
      simp only [isspace, Bool.or_eq_false_iff, beq_eq_false_iff_ne, Bool.and_eq_false_iff, decide_eq_false_iff_not,
        UInt8.le_iff_toNat_le, ne_eq, ← UInt8.toNat_inj]
      change ¬ c.toNat = 32 ∧ (¬ 9 ≤ c.toNat ∨ ¬ c.toNat ≤ 13)
      omega
    have hsign : ∀ d : UInt8, d.toNat < 48 → (c :: s).head? ≠ some d := by
      rintro d hd hx
      cases hx
      omega
    unfold atoi
    dsimp only
    rw [List.dropWhile_cons_of_neg (by simp [hspace]), if_neg (not_or.mpr ⟨hsign 45 (by decide), hsign 43 (by decide)⟩),
      if_neg (hsign 45 (by decide)), htake, Int.bmod_eq_of_le (by omega) (by omega)]
    omega

theorem parsePort_spec {port : UInt16} (h : PortText s) (hp : parsePort s = some port) :
    port.toNat = if s = [42] then 0 else digits s := by
  unfold parsePort at hp
  split_ifs at hp with hzero hbad
  · cases hp
    rcases hzero with rfl | rfl <;> rfl
  · cases hp
    have hdecimal := h.resolve_left (not_or.mp hzero).1
    rw [if_neg (not_or.mp hzero).1, atoi_decimal hdecimal]
    have hlt := hdecimal.2.2
    simp only [UInt16.ofInt, UInt16.toNat_ofNat']
    omega

theorem splitZone_cases (addrStr : List UInt8) :
    (∃ addr, splitLast 37 addrStr = some (addr, []) ∧ l.splitZone addrStr = .error .outOfRange) ∨
    (∃ x ∈ splitLast 37 addrStr, x.2 ≠ [] ∧ l.zoneId x.2 = 0 ∧ l.splitZone addrStr = .ok none) ∨
    (∃ x, (∀ x ∈ splitLast 37 addrStr, x.2 ≠ [] ∧ l.zoneId x.2 ≠ 0) ∧ l.splitZone addrStr = .ok (some x)) := by
  unfold splitZone
  cases splitLast 37 addrStr with
  | none => exact .inr (.inr ⟨_, by simp, rfl⟩)
  | some x =>
    obtain ⟨addr, ifStr⟩ := x
    dsimp only
    split_ifs with hempty hzero
    · exact .inl ⟨addr, by rw [hempty], rfl⟩
    · exact .inr (.inl ⟨_, rfl, hempty, hzero, rfl⟩)
    · refine .inr (.inr ⟨_, fun x hx => ?_, rfl⟩)
      cases hx
      exact ⟨hempty, hzero⟩

theorem resolvePart_cases (locl ipv6 isSrc : Bool) (name : List UInt8) :
    (EmptyZone name ∧ l.resolvePart locl ipv6 isSrc name = .error .outOfRange) ∨
    (¬ EmptyZone name ∧ ¬ l.Numeric name ∧ l.resolvePart locl ipv6 isSrc name = .ok none) ∨
    (¬ EmptyZone name ∧ l.Numeric name ∧ ∃ a, l.resolvePart locl ipv6 isSrc name = .ok (some a) ∧
      ∀ port, l.WellFormed name port → port = a.port.toNat) := by
  unfold resolvePart EmptyZone Numeric WellFormed
  cases hname : splitLast 58 name with
  | none => exact .inr (.inl ⟨by simp, by simp, rfl⟩)
  | some x =>
    obtain ⟨addrStr, portStr⟩ := x
    dsimp only
    rcases l.splitZone_cases (stripBrackets addrStr) with ⟨addr, haddr, hz⟩ | ⟨x, hx, hne, hzero, hz⟩ | ⟨x, hx, hz⟩
    · exact .inl ⟨⟨_, _, addr, rfl, haddr⟩, by rw [hz]; rfl⟩
    · refine .inr (.inl ⟨?_, ?_, by rw [hz]; rfl⟩)
      · rintro ⟨_, _, addr, heq, ha⟩
        cases heq
        cases hx.symm.trans ha
        exact hne rfl
      · rintro ⟨_, _, heq, hall, -⟩
        cases heq
        exact (hall x hx).2 hzero
    · have hempty : ¬ ∃ a p addr, some (addrStr, portStr) = some (a, p) ∧ splitLast 37 (stripBrackets a) = some (addr, []) := by
        rintro ⟨_, _, addr, heq, ha⟩
        cases heq
        exact (hx _ ha).1 rfl
      rw [hz]
      cases hport : parsePort portStr with
      | none =>
        refine .inr (.inl ⟨hempty, ?_, rfl⟩)
        rintro ⟨_, _, heq, -, hnum⟩
        cases heq
        unfold parsePort at hport
        split_ifs at hport with hnone hbad
        exact (or_assoc.mpr hnum).elim hnone fun hne => hne hbad
      | some port =>
        refine .inr (.inr ⟨hempty, ⟨_, _, rfl, hx, ?_⟩, _, rfl, ?_⟩)
        · unfold parsePort at hport
          split_ifs at hport with hnone hbad
          · exact or_assoc.mp (.inl hnone)
          · exact .inr (.inr hbad)
        · rintro _ ⟨_, _, heq, htext, -, rfl⟩
          cases heq
          rw [setPort_port, parsePort_spec htext hport]

/-- A name is resolved as it should be exactly when no zone that is read is empty, and parts that are numeric are
well-formed, or one of them is not numeric either. -/
theorem resolve_exact_iff (l : Lookups) (t : TcpAddress) (name : List UInt8) (locl ipv6 : Bool) :
    l.Exact t name locl ipv6 ↔ match splitLast 59 name with
      | none => ¬ EmptyZone name ∧ (l.Numeric name → ∃ port, l.WellFormed name port)
      | some (srcName, name) => ¬ EmptyZone srcName ∧ (l.Numeric srcName → ¬ EmptyZone name ∧
          (l.Numeric name → (∃ port, l.WellFormed srcName port) ∧ ∃ port, l.WellFormed name port)) := by
  have hwell : ∀ {name : List UInt8} {a : SockAddr}, (∀ port, l.WellFormed name port → port = a.port.toNat) →
      (l.WellFormed name a.port.toNat ↔ ∃ port, l.WellFormed name port) :=
    fun hall => ⟨fun h => ⟨_, h⟩, fun ⟨port, h⟩ => hall port h ▸ h⟩
  unfold Exact resolve
  cases splitLast 59 name with
  | none =>
    rcases l.resolvePart_cases locl ipv6 false name with ⟨hempty, hr⟩ | ⟨hempty, hnum, hr⟩ | ⟨hempty, hnum, a, hr, hall⟩
    · simp [hr, hempty, bind, Except.bind]
    · simp [hr, hempty, hnum, bind, Except.bind, pure, Except.pure]
    · simp [hr, hempty, hnum, bind, Except.bind, pure, Except.pure, hwell hall]
  | some x =>
    obtain ⟨srcName, name⟩ := x
    dsimp only
    rcases l.resolvePart_cases locl ipv6 true srcName with ⟨hempty, hr⟩ | ⟨hempty, hnum, hr⟩ | ⟨hempty, hnum, src, hr, hall⟩
    · simp [hr, hempty, bind, Except.bind]
    · simp [hr, hempty, hnum, bind, Except.bind, pure, Except.pure]
    · rcases l.resolvePart_cases locl ipv6 false name with ⟨hempty', hr'⟩ | ⟨hempty', hnum', hr'⟩ |
        ⟨hempty', hnum', a, hr', hall'⟩
      · simp [hr, hr', hempty, hempty', hnum, bind, Except.bind]
      · simp [hr, hr', hempty, hempty', hnum, hnum', bind, Except.bind, pure, Except.pure]
      · simp [hr, hr', hempty, hempty', hnum, hnum', bind, Except.bind, pure, Except.pure, hwell hall, hwell hall']

def anyHost : Lookups := ⟨fun _ => 0, fun _ _ _ => ⟨.inet, [0, 0, 0, 0], rfl, 0, 0⟩, fun _ _ _ => ⟨.inet, [0, 0, 0, 0], rfl, 0, 0⟩⟩

/-- `h:65616` is resolved, with port 80, and `h%:80` throws. -/
theorem resolve_can_slip : anyHost.resolve ⟨none, none, false⟩ [104, 58, 54, 53, 54, 49, 54] false false =
      .ok (true, ⟨some ⟨.inet, [0, 0, 0, 0], rfl, 80, 0⟩, none, false⟩) ∧
    ¬ anyHost.Exact ⟨none, none, false⟩ [104, 58, 54, 53, 54, 49, 54] false false ∧
    ¬ anyHost.Exact ⟨none, none, false⟩ [104, 37, 58, 56, 48] false false := by
  have hport : anyHost.resolve ⟨none, none, false⟩ [104, 58, 54, 53, 54, 49, 54] false false =
      .ok (true, ⟨some ⟨.inet, [0, 0, 0, 0], rfl, 80, 0⟩, none, false⟩) := by decide
  refine ⟨hport, ?_, ?_⟩
  · rintro ⟨rc, t', hr, h⟩
    cases hr.symm.trans hport
    obtain ⟨a, ha, addrStr, portStr, hsplit, htext, -⟩ := h rfl
    obtain ⟨-, rfl⟩ : addrStr = [104] ∧ portStr = [54, 53, 54, 49, 54] := Prod.mk.inj (Option.some.inj hsplit.symm)
    exact absurd htext (by decide)
  · rintro ⟨rc, t', hr, -⟩
    cases hr

end Lookups

end Zmq
