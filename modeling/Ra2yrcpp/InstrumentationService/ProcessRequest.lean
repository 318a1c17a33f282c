import Mathlib.Algebra.Order.Floor.Semifield
import Mathlib.Data.Rat.Floor
import Mathlib.Tactic.NormNum

/-!
# Requests

The request that `InstrumentationClient::poll_blocking` builds, and what
`InstrumentationService::process_request` makes of a request.  Durations are exact.
-/

namespace Ra2yrcpp.InstrumentationService

/-- `duration_t`, in seconds. -/
abbrev Duration := ℚ

/-- The `args` of `ra2yrproto::PollResults`; an unset number reads as 0. -/
structure PollArgs where
  queueId : UInt64 := 0
  timeout : UInt64 := 0
  deriving DecidableEq, Repr

structure PollResults where
  args : Option PollArgs := none
  deriving DecidableEq, Repr

/-- `args()` of an unset field is the default instance. -/
def PollResults.getArgs (R : PollResults) : PollArgs := R.args.getD {}

/-- No field of a proto3 message is required. -/
def PollArgs.isInitialized (_ : PollArgs) : Bool := true

inductive CommandType
  | clientCommand
  | poll
  | pollBlocking
  | shutdown
  /-- Enumerations are open: any other number can be received. -/
  | other (value : Int)
  deriving DecidableEq, Repr

/-- `google::protobuf::Any`, by the type of the message in it. -/
inductive AnyMessage
  | pollResults (R : PollResults)
  | other (typeUrl : String) (value : List UInt8)
  deriving DecidableEq, Repr

/-- `UnpackTo(&R)`: `R` stays empty when another message was packed. -/
def AnyMessage.unpackTo : AnyMessage → PollResults
  | .pollResults R => R
  | .other _ _ => {}

structure Command where
  commandType : CommandType
  command : AnyMessage
  blocking : Bool := false
  deriving DecidableEq, Repr

def createCommand (cmd : AnyMessage) (type : CommandType) : Command where
  commandType := type
  command := cmd

/-- What `poll_blocking` sends. -/
def pollBlocking (timeout : Duration) (queueId : UInt64) : Command :=
  let C : PollResults :=
    if queueId < -1 then
      { args := some { queueId := queueId, timeout := UInt64.ofNat ⌊timeout⌋₊ } }
    else {}
  createCommand (.pollResults C) .pollBlocking

def pollBlockingTimeout : Duration := 5 / 2

def pollResultsTimeout : Duration := 1

/-- `(u64)socket_id` of an `int`. -/
def senderQueue (socketId : Int32) : UInt64 := socketId.toInt64.toUInt64

/-- What a request makes the service do before it answers. -/
inductive Call
  | handleCmd (queueId : Int32) (cmd : AnyMessage)
  | handleCmdBlocking (queueId : Int32) (cmd : AnyMessage) (delay : Duration)
  | flushResults (queueId : UInt64) (delay : Duration)
  | onShutdown
  deriving DecidableEq

/-- The switch of `process_request`. -/
def processRequest (socketId : Int32) (cmd : Command) : Except String Call :=
  match cmd.commandType with
  | .clientCommand =>
    if cmd.blocking then .ok (.handleCmdBlocking socketId cmd.command pollBlockingTimeout)
    else .ok (.handleCmd socketId cmd.command)
  | .poll => .ok (.flushResults (senderQueue socketId) pollResultsTimeout)
  | .pollBlocking =>
    let R := cmd.command.unpackTo
    let queueId := if R.getArgs.queueId > 0 then R.getArgs.queueId else senderQueue socketId
    let timeout : Duration :=
      if R.getArgs.isInitialized then (R.getArgs.timeout.toUInt32.toNat : ℚ) / 1000
      else pollBlockingTimeout
    .ok (.flushResults queueId timeout)
  | .shutdown => .ok .onShutdown
  | .other value => .error ("unknown command: " ++ toString value)

/-- The queue and the duration that a client means with its arguments; without arguments the service
uses its own. -/
def meant (socketId : Int32) (timeout : Duration) (queueId : UInt64) : Call :=
  if queueId < -1 then
    .flushResults (if queueId = 0 then senderQueue socketId else queueId) timeout
  else .flushResults (senderQueue socketId) pollBlockingTimeout

/-! ## What arrives -/

theorem floor_millis (n : Nat) : ⌊(n : ℚ) / 1000⌋₊ = n / 1000 := by
  rw [Nat.floor_div_ofNat, Nat.floor_natCast]

theorem gt_zero_iff {queueId : UInt64} : queueId > 0 ↔ queueId ≠ 0 := by
  rw [gt_iff_lt, UInt64.lt_iff_toNat_lt, Ne, ← UInt64.toNat_inj]
  exact Nat.pos_iff_ne_zero

/-- The client sends whole seconds, and the service reads milliseconds. -/
theorem processRequest_pollBlocking {n : Nat} (hn : n < 4294967296) {queueId : UInt64}
    (hq : queueId < -1) (socketId : Int32) :
    processRequest socketId (pollBlocking ((n : ℚ) / 1000) queueId) =
      .ok (.flushResults (if queueId = 0 then senderQueue socketId else queueId)
        (((n / 1000 : Nat) : ℚ) / 1000)) := by
  have hsent : (UInt64.ofNat (n / 1000)).toUInt32.toNat = n / 1000 := by
    rw [UInt64.toNat_toUInt32, UInt64.toNat_ofNat']
    omega
  unfold pollBlocking
  rw [if_pos hq, floor_millis]
  show Except.ok (Call.flushResults (if queueId > 0 then queueId else senderQueue socketId)
    (((UInt64.ofNat (n / 1000)).toUInt32.toNat : ℚ) / 1000)) = _
  rw [hsent]
  by_cases hzero : queueId = 0
  · rw [if_neg fun h => gt_zero_iff.mp h hzero, if_pos hzero]
  · rw [if_pos (gt_zero_iff.mpr hzero), if_neg hzero]

/-- Without arguments the service reads the default ones: a wait of length zero. -/
theorem processRequest_pollBlocking_default (timeout : Duration) {queueId : UInt64}
    (hq : ¬queueId < -1) (socketId : Int32) :
    processRequest socketId (pollBlocking timeout queueId) =
      .ok (.flushResults (senderQueue socketId) 0) := by
  unfold pollBlocking
  rw [if_neg hq]
  show Except.ok (Call.flushResults (if (0 : UInt64) > 0 then 0 else senderQueue socketId)
    (((0 : UInt64).toUInt32.toNat : ℚ) / 1000)) = _
  simp

theorem lt_neg_one_iff {queueId : UInt64} : queueId < -1 ↔ queueId ≠ -1 := by
  rw [UInt64.lt_iff_toNat_lt, Ne, ← UInt64.toNat_inj]
  have hmax : (-1 : UInt64).toNat = 18446744073709551615 := by decide
  have hlt := queueId.toNat_lt
  omega

/-- The service waits as long as the client asks for exactly when it asks for no wait at all. -/
theorem pollBlocking_agrees_iff {n : Nat} (hn : n < 4294967296) (queueId : UInt64)
    (socketId : Int32) :
    processRequest socketId (pollBlocking ((n : ℚ) / 1000) queueId) =
        .ok (meant socketId ((n : ℚ) / 1000) queueId) ↔
      n = 0 ∧ queueId ≠ -1 := by
  unfold meant
  by_cases hq : queueId < -1
  · rw [processRequest_pollBlocking hn hq, if_pos hq, ← lt_neg_one_iff]
    have hthousand : (1000 : ℚ) ≠ 0 := by decide
    rw [Except.ok.injEq, Call.flushResults.injEq, div_left_inj' hthousand, Nat.cast_inj]
    constructor
    · rintro ⟨-, hsame⟩
      exact ⟨by omega, hq⟩
    · rintro ⟨rfl, -⟩
      exact ⟨rfl, rfl⟩
  · rw [processRequest_pollBlocking_default _ hq, if_neg hq, ← lt_neg_one_iff]
    rw [Except.ok.injEq, Call.flushResults.injEq]
    refine iff_of_false ?_ fun h => hq h.2
    rintro ⟨-, hzero⟩
    norm_num [pollBlockingTimeout] at hzero

theorem pollBlocking_agrees_zero :
    processRequest 3 (pollBlocking (((0 : Nat) : ℚ) / 1000) 7) =
      .ok (meant 3 (((0 : Nat) : ℚ) / 1000) 7) :=
  (pollBlocking_agrees_iff (by decide) 7 3).mpr (by decide)

/-- Five seconds become five milliseconds; without arguments the wait has length zero. -/
theorem pollBlocking_disagrees :
    processRequest 3 (pollBlocking 5 0) = .ok (.flushResults 3 (5 / 1000)) ∧
      meant 3 5 0 = .flushResults 3 5 ∧
      processRequest 3 (pollBlocking 5 (-1)) = .ok (.flushResults 3 0) ∧
      meant 3 5 (-1) = .flushResults 3 (5 / 2) := by
  have hsender : senderQueue 3 = 3 := by decide
  have hargs := processRequest_pollBlocking (n := 5000) (by decide)
    (show (0 : UInt64) < -1 by decide) 3
  have hnoArgs := processRequest_pollBlocking_default 5 (show ¬(-1 : UInt64) < -1 by decide) 3
  norm_num [hsender] at hargs
  rw [hsender] at hnoArgs
  refine ⟨?_, ?_, hnoArgs, ?_⟩
  · rw [hargs]
    norm_num
  · simp [meant, hsender]
  · simp [meant, hsender, pollBlockingTimeout]

end Ra2yrcpp.InstrumentationService
