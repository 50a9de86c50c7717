import ArmRx.Mining.Difficulty
import ArmRx.Pool.Json

/-!
# The Stratum client

The state of `StratumClient` (`src/stratum_client.cpp`) that its messages read
and write, and its hexadecimal helpers. Sockets, threads and callbacks are left
out: what a handler does to the outside is part of its result.
-/

namespace ArmRx.Pool

open ArmRx.Lib ArmRx.Lib.Json ArmRx.Mining

/-- `StratumProtocol`. -/
inductive StratumProtocol where
  | auto | stratumV1 | cryptonote
  deriving DecidableEq, Repr

/-- `Job`. -/
structure Job where
  jobId : Bytes := []
  blockTemplate : Bytes := []
  nonceOffset : Nat := 0
  nonceSize : Nat := 4
  target : Bytes32 := Bytes32.ofNat 0
  seedKey : Bytes := []
  deriving DecidableEq

/-- The members of `StratumClient` the messages depend on. `subscribeDone` is
what the handshake promise has been set to. The two share counters are natural
numbers; `counters_lt` says when they are the `uint64_t` of the source. -/
structure StratumClient where
  wallet : Bytes
  password : Bytes
  sessionId : Bytes := []
  extraNonce1 : Bytes := []
  nonceOffset : Nat := 39
  nonceSize : Nat := 4
  requestId : BitVec 64 := 1
  currentTarget : Bytes32 := Bytes32.ofNat 0
  subscribeDone : Option Bool := none
  subscribeOk : Bool := false
  sharesAccepted : Nat := 0
  sharesRejected : Nat := 0
  protocol : StratumProtocol := .auto
  handshakeReqId : BitVec 64 := 0
  authorizeReqId : BitVec 64 := 0
  deriving DecidableEq

/-! ## Hexadecimal -/

/-- `from_hex`. -/
def fromHex (c : BitVec 8) : BitVec 8 :=
  if ch '0' ≤ c && c ≤ ch '9' then c - ch '0'
  else if ch 'a' ≤ c && c ≤ ch 'f' then c - ch 'a' + 10
  else if ch 'A' ≤ c && c ≤ ch 'F' then c - ch 'A' + 10
  else 0

/-- `hex_to_bytes`: a last odd character is dropped. -/
def hexToBytes : Bytes → Bytes
  | hi :: lo :: rest => (fromHex hi <<< 4 ||| fromHex lo) :: hexToBytes rest
  | _ => []

/-- `bytes_to_hex`. -/
def bytesToHex (bs : Bytes) : Bytes :=
  bs.flatMap fun (v : BitVec 8) => [hexDigit (v >>> 4), hexDigit (v &&& 0xf)]

/-- `nonce_to_hex`. A shift by 64 or more, which only a nonce of more than eight
bytes would need, gives zero. -/
def nonceToHex (nonce : BitVec 64) (size : Nat) : Bytes :=
  (List.range size).flatMap fun i =>
    let byte := (nonce >>> (i * 8)).setWidth 8
    [hexDigit (byte >>> 4), hexDigit (byte &&& 0xf)]

end ArmRx.Pool
