import Ra2yrcpp.Hook.Detour
import Ra2yrcpp.Protocol.MessageStream
import Ra2yrcpp.Reasoning.Transition

/-!
# Recording the traffic

`CBTunnelRecvFrom` and `CBTunnelSendTo` of `hooks_yr.cpp`, which write to one stream.  A hook may be
called by any thread; `CBYR::do_call` holds the lock of the storage while a callback writes.
-/

open Ra2yrcpp.Reasoning

namespace Ra2yrcpp.Hook.Traffic

open X86 (Word Mem)
open Protocol (MessageType MessageOstream MessageIstream Gzip Bytes frame frames writeVarint32
  readVarint32 intMax)

/-! ## The callbacks -/

/-- `ra2yrproto::ra2yr::TunnelPacket`. -/
structure TunnelPacket where
  source : UInt32
  destination : UInt32
  data : Bytes
  deriving DecidableEq, Repr

/-- `size` is -1 on an error. -/
structure PacketBuffer where
  data : Word
  size : Int32
  source : UInt32
  destination : UInt32

/-- `CBTunnelRecvFrom::buffer`. -/
def recvFromBuffer (cpuState : X86Regs) : PacketBuffer :=
  ⟨cpuState.ebp + 0x3f074, Int32.ofBitVec cpuState.esi, 1, 0⟩

/-- `CBTunnelSendTo::buffer`. -/
def sendToBuffer (cpuState : X86Regs) : PacketBuffer :=
  ⟨cpuState.ecx, Int32.ofBitVec cpuState.eax, 0, 1⟩

inductive Tunnel
  | recvFrom
  | sendTo
  deriving DecidableEq, Repr

def Tunnel.buffer (cpuState : X86Regs) : Tunnel → PacketBuffer
  | .recvFrom => recvFromBuffer cpuState
  | .sendTo => sendToBuffer cpuState

/-- A call of one of the two callbacks, with the memory that it finds. -/
structure TunnelCall where
  tunnel : Tunnel
  cpuState : X86Regs
  memory : Mem

def TunnelCall.buffer (c : TunnelCall) : PacketBuffer := c.tunnel.buffer c.cpuState

/-- `mutable_data()->assign(data, len)`. -/
def readData (m : Mem) (data : Word) (len : Nat) : Bytes :=
  (List.range len).map fun i => UInt8.ofBitVec (m (data + BitVec.ofNat 32 i))

/-- The packet that `exec` writes, if it writes one. -/
def TunnelCall.packet? (c : TunnelCall) : Option TunnelPacket :=
  let b := c.buffer
  if b.size > 0 then
    some ⟨b.source, b.destination, readData c.memory b.data b.size.toInt.toNat⟩
  else none

/-! ## Threads -/

/-- Where a thread is.  From `entered` to `leaving` it holds the lock of the storage, and so it does
at `elsewhere`, in a command or in another callback. -/
inductive Phase
  | idle
  | entered (c : TunnelCall)
  /-- The length of the packet is written. -/
  | writing (p : TunnelPacket)
  | leaving
  | elsewhere

inductive Move
  | call (c : TunnelCall)
  | writeLength
  | writePacket
  | leave
  | lock
  | unlock

variable {ι : Type} [DecidableEq ι]

structure State (ι : Type) where
  out : MessageOstream
  storage : Option ι
  phase : ι → Phase

def State.init (out : MessageOstream) : State ι := ⟨out, none, fun _ => .idle⟩

def State.setPhase (s : State ι) (i : ι) (p : Phase) : State ι :=
  { s with phase := Function.update s.phase i p }

/-- Bytes that go to the stream. -/
def State.append (s : State ι) (bs : Bytes) : State ι :=
  { s with out := { s.out with os := s.out.os.map (· ++ bs) } }

/-- One step of the thread `i`.  `write_message` writes the length and then the message, which it
refuses when it is longer than `INT_MAX`. -/
def State.move (T : MessageType TunnelPacket) (s : State ι) (i : ι) : Move → Option (State ι)
  | .call c =>
    match s.phase i, s.storage with
    | .idle, none => some { s.setPhase i (.entered c) with storage := some i }
    | _, _ => none
  | .writeLength =>
    match s.phase i with
    | .entered c =>
      match c.packet? with
      | none => some (s.setPhase i .leaving)
      | some p =>
        some ((s.setPhase i (.writing p)).append (writeVarint32 (T.serialize p).length))
    | _ => none
  | .writePacket =>
    match s.phase i with
    | .writing p =>
      if (T.serialize p).length ≤ intMax then
        some ((s.setPhase i .leaving).append (T.serialize p))
      else some (s.setPhase i .leaving)
    | _ => none
  | .leave =>
    match s.phase i with
    | .leaving => some { s.setPhase i .idle with storage := none }
    | _ => none
  | .lock =>
    match s.phase i, s.storage with
    | .idle, none => some { s.setPhase i .elsewhere with storage := some i }
    | _, _ => none
  | .unlock =>
    match s.phase i with
    | .elsewhere => some { s.setPhase i .idle with storage := none }
    | _ => none

def step (T : MessageType TunnelPacket) (s : State ι) (a : ι × Move) : Option (State ι) :=
  s.move T a.1 a.2

/-- The calls of the callbacks, in the order in which they got the lock. -/
def callsOf (moves : List (ι × Move)) : List TunnelCall :=
  moves.filterMap fun
    | (_, .call c) => some c
    | _ => none

def packets (calls : List TunnelCall) : List TunnelPacket := calls.filterMap TunnelCall.packet?

theorem packets_append (cs ds : List TunnelCall) : packets (cs ++ ds) = packets cs ++ packets ds :=
  List.filterMap_append

/-! ## The lock -/

/-- The thread that holds the lock is the one that is not idle. -/
def Owned (s : State ι) : Prop := ∀ i, s.phase i ≠ .idle ↔ s.storage = some i

/-- Where the thread is that holds the lock. -/
def State.current (s : State ι) : Phase := s.storage.elim .idle s.phase

variable {s t : State ι} {i : ι} {p : Phase}

omit [DecidableEq ι] in
theorem Owned.current_eq (h : Owned s) (hi : s.phase i ≠ .idle) : s.current = s.phase i := by
  unfold State.current
  rw [(h i).mp hi]
  rfl

theorem Owned.enter (h : Owned s) (hfree : s.storage = none) (hp : p ≠ .idle) :
    Owned { s.setPhase i p with storage := some i } := by
  intro j
  show Function.update s.phase i p j ≠ .idle ↔ some i = some j
  by_cases hj : j = i
  · subst hj
    rw [Function.update_self]
    exact iff_of_true hp rfl
  · rw [Function.update_of_ne hj, h j, hfree]
    exact iff_of_false nofun fun he => hj (Option.some.inj he).symm

theorem Owned.move (h : Owned s) (hi : s.phase i ≠ .idle) (hp : p ≠ .idle) :
    Owned (s.setPhase i p) := by
  intro j
  show Function.update s.phase i p j ≠ .idle ↔ s.storage = some j
  by_cases hj : j = i
  · subst hj
    rw [Function.update_self]
    exact iff_of_true hp ((h j).mp hi)
  · rw [Function.update_of_ne hj]
    exact h j

theorem Owned.exit (h : Owned s) (hi : s.phase i ≠ .idle) :
    Owned { s.setPhase i .idle with storage := none } := by
  intro j
  show Function.update s.phase i .idle j ≠ .idle ↔ none = some j
  refine iff_of_false (fun hne => ?_) nofun
  by_cases hj : j = i
  · subst hj
    exact hne (Function.update_self _ _ _)
  · -- another thread that holds the lock
    rw [Function.update_of_ne hj, h j, (h i).mp hi] at hne
    exact hj (Option.some.inj hne).symm

/-! ## What is in the stream -/

/-- What was written when the thread that holds the lock is at the phase, and the callbacks were
called with `cs` so far. -/
def Written (T : MessageType TunnelPacket) (cs : List TunnelCall) (os : Bytes) : Phase → Prop
  | .entered c => ∃ ds, cs = ds ++ [c] ∧ os = frames T (packets ds)
  | .writing p => ∃ ds c, cs = ds ++ [c] ∧ c.packet? = some p ∧
      os = frames T (packets ds) ++ writeVarint32 (T.serialize p).length
  | .idle | .leaving | .elsewhere => os = frames T (packets cs)

structure Inv (T : MessageType TunnelPacket) (cs : List TunnelCall) (s : State ι) : Prop where
  gzip : s.out.gzip = true
  owned : Owned s
  written : ∃ os, s.out.os = some os ∧ Written T cs os s.current

/-- The packet of the call is not too large for a message. -/
def Fits (T : MessageType TunnelPacket) (c : TunnelCall) : Prop :=
  ∀ p, c.packet? = some p → (T.serialize p).length ≤ intMax

variable {T : MessageType TunnelPacket} {cs : List TunnelCall}

omit [DecidableEq ι] in
theorem inv_init (T : MessageType TunnelPacket) :
    Inv T [] (State.init (MessageOstream.create true) : State ι) where
  gzip := rfl
  owned _ := iff_of_false (fun h => h rfl) nofun
  written := ⟨[], rfl, rfl⟩

theorem Inv.call {c : TunnelCall} (h : Inv T cs s) (hfree : s.storage = none) :
    Inv T (cs ++ [c]) { s.setPhase i (.entered c) with storage := some i } := by
  obtain ⟨os, hos, hwritten⟩ := h.written
  unfold State.current at hwritten
  rw [hfree] at hwritten
  refine ⟨h.gzip, h.owned.enter hfree nofun, os, hos, ?_⟩
  show Written T (cs ++ [c]) os (Function.update s.phase i (.entered c) i)
  rw [Function.update_self]
  exact ⟨cs, rfl, hwritten⟩

theorem Inv.lock (h : Inv T cs s) (hfree : s.storage = none) :
    Inv T cs { s.setPhase i .elsewhere with storage := some i } := by
  obtain ⟨os, hos, hwritten⟩ := h.written
  unfold State.current at hwritten
  rw [hfree] at hwritten
  refine ⟨h.gzip, h.owned.enter hfree nofun, os, hos, ?_⟩
  show Written T cs os (Function.update s.phase i .elsewhere i)
  rw [Function.update_self]
  exact hwritten

/-- The thread that holds the lock goes on, and may have written to the stream. -/
theorem Inv.move {q : Phase} {bs : Bytes} (h : Inv T cs s) (hi : s.phase i = q) (hq : q ≠ .idle)
    (hp : p ≠ .idle) (hwrites : ∀ os, Written T cs os q → Written T cs (os ++ bs) p) :
    Inv T cs ((s.setPhase i p).append bs) := by
  have hne : s.phase i ≠ .idle := hi ▸ hq
  obtain ⟨os, hos, hwritten⟩ := h.written
  rw [h.owned.current_eq hne, hi] at hwritten
  have howned : Owned ((s.setPhase i p).append bs) := h.owned.move hne hp
  refine ⟨h.gzip, howned, os ++ bs, ?_, ?_⟩
  · show s.out.os.map (· ++ bs) = some (os ++ bs)
    rw [hos]
    rfl
  · have hphase : ((s.setPhase i p).append bs).phase i = p := Function.update_self _ _ _
    rw [howned.current_eq (i := i) (by rwa [hphase]), hphase]
    exact hwrites os hwritten

omit [DecidableEq ι] in
theorem append_nil (s : State ι) : s.append [] = s := by
  rcases s with ⟨⟨gzip, os⟩, storage, phase⟩
  unfold State.append
  cases os with
  | none => rfl
  | some os =>
    dsimp only [Option.map_some]
    rw [List.append_nil]

theorem Inv.exit {q : Phase} (h : Inv T cs s) (hi : s.phase i = q) (hq : q ≠ .idle)
    (hwritten' : ∀ os, Written T cs os q → Written T cs os .idle) :
    Inv T cs { s.setPhase i .idle with storage := none } := by
  have hne : s.phase i ≠ .idle := hi ▸ hq
  obtain ⟨os, hos, hwritten⟩ := h.written
  rw [h.owned.current_eq hne, hi] at hwritten
  exact ⟨h.gzip, h.owned.exit hne, os, hos, hwritten' os hwritten⟩

/-- A step of any thread. -/
theorem Inv.step {m : Move} (h : Inv T cs s) (hcs : ∀ c ∈ cs, Fits T c)
    (hstep : s.move T i m = some t) : Inv T (cs ++ callsOf [(i, m)]) t := by
  have hsame : cs ++ [] = cs := List.append_nil cs
  cases m with
  | call c =>
    dsimp only [State.move] at hstep
    split at hstep
    · next hidle hfree =>
      obtain rfl := Option.some.inj hstep
      exact h.call hfree
    · cases hstep
  | lock =>
    dsimp only [State.move] at hstep
    split at hstep
    · next hidle hfree =>
      obtain rfl := Option.some.inj hstep
      exact hsame.symm ▸ h.lock hfree
    · cases hstep
  | writeLength =>
    dsimp only [State.move] at hstep
    split at hstep
    · next c hc =>
      split at hstep
      · next hnone =>
        obtain rfl := Option.some.inj hstep
        show Inv T (cs ++ []) _
        rw [hsame, ← append_nil (s.setPhase i .leaving)]
        refine h.move hc nofun nofun ?_
        rintro os ⟨ds, rfl, rfl⟩
        show frames T (packets ds) ++ [] = frames T (packets (ds ++ [c]))
        rw [packets_append, List.append_nil]
        show _ = frames T (packets ds ++ [c].filterMap TunnelCall.packet?)
        rw [List.filterMap_cons_none hnone, List.filterMap_nil, List.append_nil]
      · next p hp =>
        obtain rfl := Option.some.inj hstep
        show Inv T (cs ++ []) _
        rw [hsame]
        refine h.move hc nofun nofun ?_
        rintro os ⟨ds, rfl, rfl⟩
        exact ⟨ds, c, rfl, hp, rfl⟩
    · cases hstep
  | writePacket =>
    dsimp only [State.move] at hstep
    split at hstep
    · next p hp =>
      split at hstep
      · obtain rfl := Option.some.inj hstep
        show Inv T (cs ++ []) _
        rw [hsame]
        refine h.move hp nofun nofun ?_
        rintro os ⟨ds, c, rfl, hc, rfl⟩
        show frames T (packets ds) ++ writeVarint32 (T.serialize p).length ++ T.serialize p =
          frames T (packets (ds ++ [c]))
        rw [packets_append, List.append_assoc]
        show _ = (packets ds ++ [c].filterMap TunnelCall.packet?).flatMap (frame T)
        rw [List.filterMap_cons_some hc, List.filterMap_nil, List.flatMap_append,
          List.flatMap_singleton]
        rfl
      · next hlarge =>
        -- the packet is one of a call
        obtain ⟨os, -, hwritten⟩ := h.written
        rw [h.owned.current_eq (i := i) (by rw [hp]; nofun), hp] at hwritten
        obtain ⟨ds, c, rfl, hc, -⟩ := hwritten
        exact absurd (hcs c List.mem_concat_self p hc) hlarge
    · cases hstep
  | leave =>
    dsimp only [State.move] at hstep
    split at hstep
    · next hleaving =>
      obtain rfl := Option.some.inj hstep
      exact hsame.symm ▸ h.exit hleaving nofun fun _ hwritten => hwritten
    · cases hstep
  | unlock =>
    dsimp only [State.move] at hstep
    split at hstep
    · next helsewhere =>
      obtain rfl := Option.some.inj hstep
      exact hsame.symm ▸ h.exit helsewhere nofun fun _ hwritten => hwritten
    · cases hstep

theorem inv_run {moves : List (ι × Move)} (h : Inv T cs s)
    (hcs : ∀ c ∈ cs ++ callsOf moves, Fits T c) (hrun : run (step T) s moves = some t) :
    Inv T (cs ++ callsOf moves) t := by
  induction moves generalizing cs s with
  | nil =>
    cases hrun
    exact (List.append_nil cs).symm ▸ h
  | cons a moves ih =>
    obtain ⟨u, hstep, hrun'⟩ := run_cons_eq_some.mp hrun
    have hcalls : callsOf ([a] ++ moves) = callsOf [a] ++ callsOf moves := List.filterMap_append
    rw [List.singleton_append] at hcalls
    rw [hcalls, ← List.append_assoc] at hcs ⊢
    refine ih (h.step (fun c hc => hcs c ?_) hstep) hcs hrun'
    exact List.mem_append_left _ (List.mem_append_left _ hc)

/-- Whatever threads receive and send at the same time, the packets of the traffic file are those of
the calls that moved any data, complete and in the order in which the calls got the lock, each with
its direction and its data. -/
theorem traffic_read_back (T : MessageType TunnelPacket) (G : Gzip) {moves : List (ι × Move)}
    (hfits : ∀ c ∈ callsOf moves, Fits T c) {s : State ι}
    (hrun : run (step T) (State.init (MessageOstream.create true)) moves = some s)
    (hfree : s.storage = none) (j : Nat) (P : TunnelPacket) :
    MessageIstream.reads T j (MessageIstream.create G (s.out.file G) true) P =
      ((packets (callsOf moves)).take j).map some ++
        List.replicate (j - (packets (callsOf moves)).length) none := by
  have hinv : Inv T ([] ++ callsOf moves) s := inv_run (inv_init T) hfits hrun
  rw [List.nil_append] at hinv
  obtain ⟨os, hos, hwritten⟩ := hinv.written
  unfold State.current at hwritten
  rw [hfree] at hwritten
  rw [show os = frames T (packets (callsOf moves)) from hwritten] at hos
  refine Protocol.reads_file G hinv.gzip hos (fun p hp => ?_) j P
  obtain ⟨c, hc, hpacket⟩ := List.mem_filterMap.mp hp
  exact hfits c hc p hpacket

/-! ### Two threads -/

def writeField (tag : UInt8) (v : Nat) (bs : Bytes) : Bytes :=
  if v = 0 then bs else tag :: (writeVarint32 v ++ bs)

def readField (tag : UInt8) : Bytes → Nat × Bytes
  | [] => (0, [])
  | t :: bs => if t = tag then ((readVarint32 bs).1.getD 0, (readVarint32 bs).2) else (0, t :: bs)

theorem readVarint32_writeVarint32 (v : Nat) (bs : Bytes) :
    readVarint32 (writeVarint32 v ++ bs) = (some (v % 2 ^ 32), bs) := by
  have hlt : v % 2 ^ 32 < 128 ^ (4 + 1) :=
    Nat.lt_of_lt_of_le (Nat.mod_lt v (by decide)) (by decide)
  unfold readVarint32 writeVarint32
  rw [readVarint_writeVarint (by decide) hlt]
  show (some (v % 2 ^ 32 % 2 ^ 32), bs) = _
  rw [Nat.mod_mod]

/-- A field that is 0 is not there, and then the next one has another tag. -/
theorem readField_writeField {tag : UInt8} {v : Nat} {bs : Bytes}
    (hbs : v = 0 → ∀ t ∈ bs.head?, t ≠ tag) :
    readField tag (writeField tag v bs) = (v % 2 ^ 32, bs) := by
  unfold writeField
  by_cases hv : v = 0
  · rw [if_pos hv, hv]
    cases bs with
    | nil => rfl
    | cons t bs => exact if_neg (hbs hv t rfl)
  · rw [if_neg hv]
    refine (if_pos rfl).trans ?_
    rw [readVarint32_writeVarint32]
    rfl

theorem head_writeField {tag t : UInt8} {v : Nat} {bs : Bytes} (htag : tag ≠ t)
    (hbs : v = 0 → ∀ t' ∈ bs.head?, t' ≠ t) : ∀ t' ∈ (writeField tag v bs).head?, t' ≠ t := by
  unfold writeField
  by_cases hv : v = 0
  · rw [if_pos hv]
    exact hbs hv
  · rw [if_neg hv]
    intro t' ht'
    obtain rfl := Option.some.inj ht'
    exact htag

/-- The encoding of the message, which is the usual one. -/
def packetMessage : MessageType TunnelPacket where
  new := ⟨0, 0, []⟩
  serialize m :=
    writeField 0x08 m.source.toNat <| writeField 0x10 m.destination.toNat <|
      writeField 0x1a m.data.length m.data
  parse bs :=
    let source := readField 0x08 bs
    let destination := readField 0x10 source.2
    let data := readField 0x1a destination.2
    some ⟨UInt32.ofNat source.1, UInt32.ofNat destination.1, data.2⟩
  parseFailed m _ := m
  parse_serialize := by
    intro ⟨source, destination, data⟩
    have hnil : ∀ t : UInt8, data.length = 0 → ∀ t' ∈ data.head?, t' ≠ t := by
      intro t hdata
      rw [List.length_eq_zero_iff.mp hdata]
      exact nofun
    have hsource : source.toNat % 2 ^ 32 = source.toNat := Nat.mod_eq_of_lt source.toNat_lt
    have hdestination : destination.toNat % 2 ^ 32 = destination.toNat :=
      Nat.mod_eq_of_lt destination.toNat_lt
    dsimp only
    rw [readField_writeField fun _ => head_writeField (by decide) fun _ =>
        head_writeField (by decide) (hnil 0x08),
      readField_writeField fun _ => head_writeField (by decide) (hnil 0x10),
      readField_writeField (hnil 0x1a), hsource, hdestination, UInt32.ofNat_toNat,
      UInt32.ofNat_toNat]

/-- `esi` and `eax` are the sizes. -/
def callWith (tunnel : Tunnel) (size : Word) : TunnelCall where
  tunnel := tunnel
  cpuState :=
    { eflags := 0, edi := 0, esi := size, ebp := 0x400000, esp := 0x12ff00, ebx := 0, edx := 0,
      ecx := 0x500000, eax := size }
  memory addr := BitVec.ofNat 8 addr.toNat

def twoThreads : List (Bool × Move) :=
  [(false, .call (callWith .recvFrom 2)), (false, .writeLength), (false, .writePacket),
    (false, .leave),
    (true, .call (callWith .recvFrom (-1))), (true, .writeLength), (true, .leave),
    (false, .lock), (false, .unlock),
    (true, .call (callWith .sendTo 3)), (true, .writeLength), (true, .writePacket), (true, .leave)]

theorem twoThreads_read_back :
    ∃ s, run (step packetMessage) (State.init (MessageOstream.create true)) twoThreads = some s ∧
      MessageIstream.reads packetMessage 3
          (MessageIstream.create Protocol.storedGzip (s.out.file Protocol.storedGzip) true)
          ⟨0, 0, []⟩ =
        [some ⟨1, 0, [0x74, 0x75]⟩, some ⟨0, 1, [0, 1, 2]⟩, none] := by
  have hfree : (run (step packetMessage) (State.init (MessageOstream.create true)) twoThreads).map
      State.storage = some none := by
    decide +kernel
  obtain ⟨s, hrun, hstorage⟩ := Option.map_eq_some_iff.mp hfree
  have hfits : ∀ c ∈ callsOf twoThreads, Fits packetMessage c := by
    intro c hc p hp
    have hshort : ∀ p ∈ packets (callsOf twoThreads),
        (packetMessage.serialize p).length ≤ intMax := by
      decide +kernel
    exact hshort p (List.mem_filterMap.mpr ⟨c, hc, hp⟩)
  refine ⟨s, hrun, ?_⟩
  rw [traffic_read_back packetMessage Protocol.storedGzip hfits hrun hstorage]
  decide +kernel

end Ra2yrcpp.Hook.Traffic
