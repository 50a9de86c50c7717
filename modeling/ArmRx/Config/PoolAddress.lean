import ArmRx.Config.ParseBoundedUll

/-!
# Pool addresses

Embeds the two splitters of a pool address into host and port: the `--pool=`
branch of `CommandLineParser::parse` (`src/cli_parser.cpp`), which knows
brackets and bare IPv6 addresses, and `parse_pool_str` (`src/config.cpp`), which
splits at the last colon.

* `splitAtLast_eq_some`, `splitAtFirst_eq_some` — the searches of `std::string`.
* `sameAddress_iff` — where the two agree on an address the command line accepts.
* `ipv6_addresses_differ` — a bracketed and a bare IPv6 address.
-/

namespace ArmRx.Config

open ArmRx.Lib ArmRx.Lib.Json

/-! ## Searching -/

/-- What stands in front of and behind the last `c`: `rfind` and two `substr`. -/
def splitAtLast (c : BitVec 8) : Bytes → Option (Bytes × Bytes)
  | [] => none
  | b :: rest =>
    match splitAtLast c rest with
    | some (before, behind) => some (b :: before, behind)
    | none => if b = c then some ([], rest) else none

/-- What stands in front of and behind the first `c`. -/
def splitAtFirst (c : BitVec 8) : Bytes → Option (Bytes × Bytes)
  | [] => none
  | b :: rest =>
    if b = c then some ([], rest)
    else (splitAtFirst c rest).map fun (before, behind) => (b :: before, behind)

/-! ## The splitters -/

/-- `struct PoolConfig`. -/
structure PoolConfig where
  host : Bytes
  port : BitVec 16 := 3333
  tls : Bool := false
  deriving DecidableEq, Repr

/-- `static_cast<uint16_t>(parse_bounded_ull(text, 65535))`. -/
def parsePort (text : Bytes) : Except StdException (BitVec 16) :=
  (parseBoundedUll text 65535).map (BitVec.setWidth 16)

/-- `parse_pool_str`. A port that cannot be read is reported and the default
stays. -/
def parsePoolStr (s : Bytes) : PoolConfig :=
  match splitAtLast colon s with
  | some (host, portText) =>
    match parsePort portText with
    | .ok port => { host, port }
    | .error _ => { host }
  | none => { host := s }

/-- The message behind which `--pool=` exits. -/
def invalidPoolPort (text : Bytes) : Bytes := bytes "Invalid --pool port: " ++ text

/-- `addr.size() >= 3 && addr.front() == '['`. -/
def Bracketed (addr : Bytes) : Prop := 3 ≤ addr.length ∧ addr.head? = some openBracket

instance (addr : Bytes) : Decidable (Bracketed addr) := inferInstanceAs (Decidable (_ ∧ _))

/-- The `--pool=` branch: the entry of `pool_list`, or the message. -/
def parsePoolArgument (addr : Bytes) : Except Bytes (Bytes × BitVec 16) :=
  if Bracketed addr then
    match splitAtFirst closeBracket addr with
    | some (bracketed, rest) =>
      let host := bracketed.drop 1
      if rest.head? = some colon then
        match parsePort (rest.drop 1) with
        | .ok port => .ok (host, port)
        | .error _ => .error (invalidPoolPort (rest.drop 1))
      else .ok (host, 3333)
    -- no closing bracket: all of it is the host
    | none => .ok (addr, 3333)
  else
    match splitAtLast colon addr with
    | some (before, maybePort) =>
      if before ≠ [] ∧ colon ∉ before then
        match parsePort maybePort with
        | .ok port => .ok (before, port)
        | .error _ =>
          if maybePort ≠ [] then .error (invalidPoolPort maybePort) else .ok (addr, 3333)
      else if colon ∉ before ∧ maybePort ≠ [] then .error (invalidPoolPort maybePort)
      else .ok (addr, 3333)
    | none => .ok (addr, 3333)

/-! ## The searches -/

theorem splitAtLast_eq_none {c : BitVec 8} {s : Bytes} : splitAtLast c s = none ↔ c ∉ s := by
  induction s with
  | nil => simp [splitAtLast]
  | cons b rest ih =>
    rw [splitAtLast]
    cases hRest : splitAtLast c rest with
    | some p => simp [← not_iff_not.mpr ih, hRest]
    | none =>
      have hNot : c ∉ rest := ih.mp hRest
      simp [hNot, eq_comm]

theorem splitAtLast_eq_some {c : BitVec 8} {s before behind : Bytes}
    (h : splitAtLast c s = some (before, behind)) : s = before ++ c :: behind ∧ c ∉ behind := by
  induction s generalizing before with
  | nil => cases h
  | cons b rest ih =>
    rw [splitAtLast] at h
    cases hRest : splitAtLast c rest with
    | some p =>
      obtain ⟨before', behind'⟩ := p
      rw [hRest] at h
      cases h
      obtain ⟨hEq, hNot⟩ := ih hRest
      exact ⟨by rw [hEq, List.cons_append], hNot⟩
    | none =>
      rw [hRest] at h
      dsimp only at h
      split at h
      · rename_i hb
        cases h
        exact ⟨by rw [hb, List.nil_append], splitAtLast_eq_none.mp hRest⟩
      · cases h

theorem splitAtFirst_eq_none {c : BitVec 8} {s : Bytes} : splitAtFirst c s = none ↔ c ∉ s := by
  induction s with
  | nil => simp [splitAtFirst]
  | cons b rest ih =>
    rw [splitAtFirst]
    split
    · rename_i hb
      simp [hb]
    · rename_i hb
      simp [ih, Ne.symm hb]

theorem splitAtFirst_eq_some {c : BitVec 8} {s before behind : Bytes}
    (h : splitAtFirst c s = some (before, behind)) : s = before ++ c :: behind := by
  induction s generalizing before with
  | nil => cases h
  | cons b rest ih =>
    rw [splitAtFirst] at h
    split at h
    · rename_i hb
      cases h
      rw [hb, List.nil_append]
    · obtain ⟨⟨before', behind'⟩, hRest, hPair⟩ := Option.map_eq_some_iff.mp h
      cases hPair
      rw [ih hRest, List.cons_append]

/-! ## Agreement -/

/-- The configuration file means the same host and port by `addr`. -/
def SameAddress (addr host : Bytes) (port : BitVec 16) : Prop :=
  (parsePoolStr addr).host = host ∧ (parsePoolStr addr).port = port

/-- A host without a colon, or a host and a port that is not empty with one colon
between them; a leading bracket only where nothing closes it and no colon follows. -/
def PlainAddress (addr : Bytes) : Prop :=
  (Bracketed addr → closeBracket ∉ addr ∧ colon ∉ addr) ∧
    ∀ before behind, addr = before ++ colon :: behind → colon ∉ before ∧ behind ≠ []

theorem parsePoolStr_of_not_mem {s : Bytes} (h : colon ∉ s) : parsePoolStr s = { host := s } := by
  unfold parsePoolStr
  rw [splitAtLast_eq_none.mpr h]

theorem parsePoolStr_of_split {s before behind : Bytes}
    (h : splitAtLast colon s = some (before, behind)) :
    (parsePoolStr s).host = before ∧
      (parsePoolStr s).port = match parsePort behind with
        | .ok port => port
        | .error _ => 3333 := by
  unfold parsePoolStr
  rw [h]
  dsimp only
  cases parsePort behind with
  | ok port => exact ⟨rfl, rfl⟩
  | error e => exact ⟨rfl, rfl⟩

/-- A host that the configuration file cuts off at a colon is not the whole address. -/
theorem host_ne_of_mem {s : Bytes} (h : colon ∈ s) : (parsePoolStr s).host ≠ s := by
  intro hHost
  cases hSplit : splitAtLast colon s with
  | none => exact splitAtLast_eq_none.mp hSplit h
  | some p =>
    obtain ⟨before, behind⟩ := p
    obtain ⟨hEq, -⟩ := splitAtLast_eq_some hSplit
    rw [(parsePoolStr_of_split hSplit).1] at hHost
    have hLength := congrArg List.length (hHost.trans hEq)
    simp at hLength

/-- Shifting a text by one byte repeats the first one. -/
theorem shifted_head {b c : BitVec 8} {h p t : Bytes} (hEq : h ++ c :: p = b :: (h ++ t)) :
    c = b := by
  induction h generalizing b with
  | nil => exact (List.cons.inj hEq).1
  | cons x h ih =>
    obtain ⟨rfl, hRest⟩ := List.cons.inj hEq
    exact ih hRest

/-- What stands between brackets is not what stands in front of a colon. -/
theorem host_ne_inside {host rest : Bytes} :
    (parsePoolStr (openBracket :: (host ++ closeBracket :: rest))).host ≠ host := by
  intro hHost
  cases hSplit : splitAtLast colon (openBracket :: (host ++ closeBracket :: rest)) with
  | none =>
    rw [parsePoolStr_of_not_mem (splitAtLast_eq_none.mp hSplit)] at hHost
    have hLength := congrArg List.length hHost
    simp at hLength
    omega
  | some p =>
    obtain ⟨before, behind⟩ := p
    obtain ⟨hEq, -⟩ := splitAtLast_eq_some hSplit
    rw [(parsePoolStr_of_split hSplit).1] at hHost
    subst hHost
    have hColon : colon = openBracket := shifted_head hEq.symm
    revert hColon
    decide

/-- Where the command line takes the whole address for the host. -/
theorem sameAddress_whole (addr : Bytes) : SameAddress addr addr 3333 ↔ colon ∉ addr := by
  refine ⟨fun h hColon => host_ne_of_mem hColon h.1, fun h => ?_⟩
  rw [SameAddress, parsePoolStr_of_not_mem h]
  exact ⟨rfl, rfl⟩

theorem plainAddress_of_not_mem {addr : Bytes} (hColon : colon ∉ addr)
    (hBracket : Bracketed addr → closeBracket ∉ addr) : PlainAddress addr := by
  refine ⟨fun h => ⟨hBracket h, hColon⟩, fun before behind hEq => ?_⟩
  exact absurd (hEq ▸ List.mem_append_right before List.mem_cons_self) hColon

/-- An address with brackets. -/
theorem sameAddress_bracketed {addr host : Bytes} {port : BitVec 16} (hBracketed : Bracketed addr)
    (hAccepted : parsePoolArgument addr = .ok (host, port)) :
    SameAddress addr host port ↔ PlainAddress addr := by
  unfold parsePoolArgument at hAccepted
  rw [if_pos hBracketed] at hAccepted
  cases hSplit : splitAtFirst closeBracket addr with
  | none =>
    rw [hSplit] at hAccepted
    cases hAccepted
    rw [sameAddress_whole]
    exact ⟨fun h => plainAddress_of_not_mem h fun _ => splitAtFirst_eq_none.mp hSplit,
      fun h => (h.1 hBracketed).2⟩
  | some p =>
    obtain ⟨bracketed, rest⟩ := p
    have hEq := splitAtFirst_eq_some hSplit
    -- the brackets are part of the host in the configuration file
    have hHost : host = bracketed.drop 1 := by
      rw [hSplit] at hAccepted
      dsimp only at hAccepted
      split at hAccepted
      · split at hAccepted
        · cases hAccepted
          rfl
        · cases hAccepted
      · cases hAccepted
        rfl
    have hFront : bracketed = openBracket :: bracketed.drop 1 := by
      have hHead := hBracketed.2
      rw [hEq] at hHead
      cases bracketed with
      | nil =>
        rw [List.nil_append, List.head?_cons, Option.some_inj] at hHead
        revert hHead
        decide
      | cons b bs =>
        rw [List.cons_append, List.head?_cons, Option.some_inj] at hHead
        rw [hHead]
        rfl
    refine iff_of_false (fun hSame => ?_) fun hPlain => ?_
    · have hAddr : addr = openBracket :: (host ++ closeBracket :: rest) := by
        rw [hEq, hFront, hHost]
        rfl
      rw [hAddr] at hSame
      exact host_ne_inside hSame.1
    · exact (hPlain.1 hBracketed).1 (hEq ▸ List.mem_append_right _ List.mem_cons_self)

/-- An address without brackets. -/
theorem sameAddress_unbracketed {addr host : Bytes} {port : BitVec 16}
    (hBracketed : ¬Bracketed addr) (hAccepted : parsePoolArgument addr = .ok (host, port)) :
    SameAddress addr host port ↔ PlainAddress addr := by
  unfold parsePoolArgument at hAccepted
  rw [if_neg hBracketed] at hAccepted
  cases hSplit : splitAtLast colon addr with
  | none =>
    rw [hSplit] at hAccepted
    cases hAccepted
    have hColon := splitAtLast_eq_none.mp hSplit
    exact iff_of_true ((sameAddress_whole addr).mpr hColon)
      (plainAddress_of_not_mem hColon fun h => absurd h hBracketed)
  | some p =>
    obtain ⟨before, maybePort⟩ := p
    obtain ⟨hEq, hLast⟩ := splitAtLast_eq_some hSplit
    have hColon : colon ∈ addr := hEq ▸ List.mem_append_right _ List.mem_cons_self
    rw [hSplit] at hAccepted
    dsimp only at hAccepted
    by_cases hHostPort : before ≠ [] ∧ colon ∉ before
    · rw [if_pos hHostPort] at hAccepted
      cases hPort : parsePort maybePort with
      | ok p =>
        rw [hPort] at hAccepted
        cases hAccepted
        obtain ⟨hHost, hSame⟩ := parsePoolStr_of_split hSplit
        rw [hPort] at hSame
        refine iff_of_true ⟨hHost, hSame⟩ ⟨fun h => absurd h hBracketed, fun b r hOther => ?_⟩
        -- there is only one way to split at the one colon
        obtain ⟨rfl, -, rfl⟩ :=
          (List.append_cons_inj_of_notMem hHostPort.2 hLast).mp (hEq.symm.trans hOther)
        refine ⟨hHostPort.2, fun hNil => ?_⟩
        rw [hNil] at hPort
        cases hPort
      | error e =>
        rw [hPort] at hAccepted
        dsimp only at hAccepted
        by_cases hNil : maybePort = []
        · rw [if_neg (not_not.mpr hNil)] at hAccepted
          cases hAccepted
          exact iff_of_false (fun h => host_ne_of_mem hColon h.1)
            fun h => (h.2 before maybePort hEq).2 hNil
        · rw [if_pos hNil] at hAccepted
          cases hAccepted
    · rw [if_neg hHostPort] at hAccepted
      by_cases hRejected : colon ∉ before ∧ maybePort ≠ []
      · rw [if_pos hRejected] at hAccepted
        cases hAccepted
      · rw [if_neg hRejected] at hAccepted
        cases hAccepted
        exact iff_of_false (fun h => host_ne_of_mem hColon h.1)
          fun h => hRejected (h.2 before maybePort hEq)

/-- **Where the two input paths agree** on an address the command line accepts. -/
theorem sameAddress_iff {addr host : Bytes} {port : BitVec 16}
    (hAccepted : parsePoolArgument addr = .ok (host, port)) :
    SameAddress addr host port ↔ PlainAddress addr := by
  by_cases hBracketed : Bracketed addr
  · exact sameAddress_bracketed hBracketed hAccepted
  · exact sameAddress_unbracketed hBracketed hAccepted

/-- A host with a port is such an address. -/
theorem sameAddress_host_port :
    parsePoolArgument (bytes "pool:4444") = .ok (bytes "pool", 4444) ∧
      (SameAddress (bytes "pool:4444") (bytes "pool") 4444 ↔ PlainAddress (bytes "pool:4444")) :=
  have hAccepted : parsePoolArgument (bytes "pool:4444") = .ok (bytes "pool", 4444) := by decide
  ⟨hAccepted, sameAddress_iff hAccepted⟩

/-- IPv6 addresses, with brackets and a port or bare, are not. -/
theorem ipv6_addresses_differ :
    parsePoolArgument (bytes "[::1]:9999") = .ok (bytes "::1", 9999) ∧
      ¬SameAddress (bytes "[::1]:9999") (bytes "::1") 9999 ∧
      parsePoolArgument (bytes "2001:db8::1") = .ok (bytes "2001:db8::1", 3333) ∧
      parsePoolStr (bytes "2001:db8::1") = { host := bytes "2001:db8:", port := 1 } := by
  unfold SameAddress
  decide

end ArmRx.Config
