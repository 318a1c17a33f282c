import Mathlib.Data.List.Basic
import Ra2yrcpp.Reasoning.Varint

/-!
# Recordings of messages

`MessageOstream`, `MessageIstream` and `dump_messages` of `protocol/helpers.cpp`: messages one after
the other, each behind its length.  Protobuf and zlib are not part of the repository; what the code
uses of them are the fields of `MessageType` and `Gzip`.
-/

namespace Ra2yrcpp.Protocol

open Reasoning

abbrev Bytes := List UInt8

variable {Msg : Type*}

/-- A message type of protobuf, as far as the streams use it. -/
structure MessageType (Msg : Type*) where
  /-- `New()`. -/
  new : Msg
  serialize : Msg → Bytes
  /-- The message that the bytes are a valid encoding of. -/
  parse : Bytes → Option Msg
  /-- What a parse of other bytes leaves in the message. -/
  parseFailed : Msg → Bytes → Msg
  parse_serialize : ∀ m, parse (serialize m) = some m

structure Gzip where
  compress : Bytes → Bytes
  decompress : Bytes → Bytes
  decompress_compress : ∀ b, decompress (compress b) = b

def intMax : Nat := 2 ^ 31 - 1

/-- `CodedOutputStream::WriteVarint32`. -/
def writeVarint32 (n : Nat) : Bytes := writeVarint 4 (n % 2 ^ 32)

/-- `CodedInputStream::ReadVarint32`, which reads up to ten bytes and drops the upper bits. -/
def readVarint32 (is : Bytes) : Option Nat × Bytes :=
  let r := readVarint 10 is
  (r.1.map (· % 2 ^ 32), r.2)

/-- `write_message`.  `SerializeToCodedStream` refuses messages of more than `INT_MAX` bytes. -/
def writeMessage (T : MessageType Msg) (m : Msg) (os : Bytes) : Bool × Bytes :=
  let l := (T.serialize m).length
  let os := os ++ writeVarint32 l
  if l ≤ intMax then (true, os ++ T.serialize m) else (false, os)

/-- `read_message`: whether it succeeded, the message and what is left of the stream.  The limit
stops the parse at `length` bytes, or the end of the stream does. -/
def readMessage (T : MessageType Msg) (M : Msg) (is : Bytes) : Bool × Msg × Bytes :=
  match readVarint32 is with
  | (none, is) => (false, M, is)
  | (some length, is) =>
    match T.parse (is.take length) with
    | some m => (true, m, is.drop length)
    | none => (false, T.parseFailed M (is.take length), is.drop length)

/-- `os` is what has been written, before it is compressed. -/
structure MessageOstream where
  gzip : Bool
  os : Option Bytes
  deriving DecidableEq, Repr

/-- `is` is what has still to be read, after it is decompressed. -/
structure MessageIstream where
  gzip : Bool
  is : Option Bytes
  deriving DecidableEq, Repr

def MessageOstream.write (T : MessageType Msg) (S : MessageOstream) (m : Msg) :
    Bool × MessageOstream :=
  match S.os with
  | none => (false, S)
  | some os =>
    let r := writeMessage T m os
    (r.1, { S with os := some r.2 })

/-- One `write` after the other, as long as they succeed. -/
def MessageOstream.writeAll (T : MessageType Msg) : MessageOstream → List Msg → Bool × MessageOstream
  | S, [] => (true, S)
  | S, m :: ms =>
    match S.write T m with
    | (true, S) => S.writeAll T ms
    | (false, S) => (false, S)

/-- The stream on a new file. -/
def MessageOstream.create (gzip : Bool) : MessageOstream := ⟨gzip, some []⟩

/-- The file behind the stream, once the stream is closed. -/
def MessageOstream.file (G : Gzip) (S : MessageOstream) : Bytes :=
  if S.gzip then G.compress (S.os.getD []) else S.os.getD []

def MessageIstream.create (G : Gzip) (file : Bytes) (gzip : Bool) : MessageIstream :=
  ⟨gzip, some (if gzip then G.decompress file else file)⟩

def MessageIstream.read (T : MessageType Msg) (S : MessageIstream) (M : Msg) :
    Bool × Msg × MessageIstream :=
  match S.is with
  | none => (false, M, S)
  | some is =>
    let r := readMessage T M is
    (r.1, r.2.1, { S with is := some r.2.2 })

/-- What `n` calls of `read` with one message object return: the message, or nothing. -/
def MessageIstream.reads (T : MessageType Msg) : Nat → MessageIstream → Msg → List (Option Msg)
  | 0, _, _ => []
  | n + 1, S, M =>
    let r := S.read T M
    (if r.1 then some r.2.1 else none) :: MessageIstream.reads T n r.2.2 r.2.1

/-! ## What is written -/

def frame (T : MessageType Msg) (m : Msg) : Bytes :=
  writeVarint32 (T.serialize m).length ++ T.serialize m

def frames (T : MessageType Msg) (ms : List Msg) : Bytes := ms.flatMap (frame T)

/-- The size of the length in front of a message. -/
def prefixSize (T : MessageType Msg) (m : Msg) : Nat := (writeVarint32 (T.serialize m).length).length

def frameSize (T : MessageType Msg) (m : Msg) : Nat := prefixSize T m + (T.serialize m).length

variable {T : MessageType Msg} {m : Msg} {ms : List Msg}

theorem length_frame : (frame T m).length = frameSize T m := List.length_append

theorem frames_cons : frames T (m :: ms) = frame T m ++ frames T ms := List.flatMap_cons

theorem writeAll_eq {gzip : Bool} {os : Bytes} {S : MessageOstream}
    (h : MessageOstream.writeAll T ⟨gzip, some os⟩ ms = (true, S)) :
    (∀ m ∈ ms, (T.serialize m).length ≤ intMax) ∧ S = ⟨gzip, some (os ++ frames T ms)⟩ := by
  induction ms generalizing os with
  | nil =>
    have hS : (⟨gzip, some os⟩ : MessageOstream) = S := congrArg Prod.snd h
    rw [← hS]
    simp [frames]
  | cons m ms ih =>
    by_cases hl : (T.serialize m).length ≤ intMax
    · have hm : MessageOstream.write T ⟨gzip, some os⟩ m =
          (true, ⟨gzip, some (os ++ frame T m)⟩) := by
        simp [MessageOstream.write, writeMessage, hl, frame]
      rw [MessageOstream.writeAll, hm] at h
      have hrec := ih h
      constructor
      · intro m' hm'
        cases List.mem_cons.mp hm' with
        | inl he => exact he ▸ hl
        | inr hmem => exact hrec.1 m' hmem
      · rw [hrec.2, frames_cons, List.append_assoc]
    · have hm : (MessageOstream.write T ⟨gzip, some os⟩ m).1 = false := by
        simp [MessageOstream.write, writeMessage, hl]
      rw [MessageOstream.writeAll] at h
      split at h
      · next hw =>
        rw [hw] at hm
        cases hm
      · cases h

/-! ## Reading it back -/

theorem readVarint32_frame {n : Nat} (hn : n ≤ intMax) (rest : Bytes) :
    readVarint32 (writeVarint32 n ++ rest) = (some n, rest) := by
  have hmod : n % 2 ^ 32 = n := by
    apply Nat.mod_eq_of_lt
    unfold intMax at hn
    omega
  have hlt : n < 128 ^ (4 + 1) := by
    unfold intMax at hn
    omega
  unfold readVarint32 writeVarint32
  rw [hmod, readVarint_writeVarint (by decide) hlt]
  show (some (n % 2 ^ 32), rest) = _
  rw [hmod]

theorem readVarint32_cut {n : Nat} {p q : Bytes} (hq : q ≠ []) (h : p ++ q = writeVarint32 n) :
    readVarint32 p = (none, []) := by
  unfold readVarint32
  rw [readVarint_cut (by decide) hq h]
  rfl

theorem readMessage_frame (hm : (T.serialize m).length ≤ intMax) (M : Msg) (rest : Bytes) :
    readMessage T M (frame T m ++ rest) = (true, m, rest) := by
  unfold readMessage frame
  rw [List.append_assoc, readVarint32_frame hm]
  show (match T.parse ((T.serialize m ++ rest).take (T.serialize m).length) with
    | some m => _ | none => _) = _
  rw [List.take_left, T.parse_serialize, List.drop_left]

/-- A stream that ends inside a payload: the parse sees the part that is there. -/
theorem readMessage_cut (hm : (T.serialize m).length ≤ intMax) (M : Msg) {q : Bytes}
    (hq : q.length ≤ (T.serialize m).length) :
    readMessage T M (writeVarint32 (T.serialize m).length ++ q) =
      match T.parse q with
      | some m' => (true, m', [])
      | none => (false, T.parseFailed M q, []) := by
  unfold readMessage
  rw [readVarint32_frame hm]
  show (match T.parse (q.take (T.serialize m).length) with | some m => _ | none => _) = _
  rw [List.take_of_length_le hq, List.drop_eq_nil_of_le hq]

theorem readMessage_nil (M : Msg) : readMessage T M [] = (false, M, []) := rfl

theorem reads_succ {gzip : Bool} {n : Nat} {M : Msg} {is : Bytes} :
    MessageIstream.reads T (n + 1) ⟨gzip, some is⟩ M =
      (if (readMessage T M is).1 then some (readMessage T M is).2.1 else none) ::
        MessageIstream.reads T n ⟨gzip, some (readMessage T M is).2.2⟩ (readMessage T M is).2.1 := rfl

/-- Apart from a message that was not read, nothing depends on what the object held before. -/
theorem readMessage_congr (M M' : Msg) (is : Bytes) :
    (readMessage T M is).1 = (readMessage T M' is).1 ∧
      (readMessage T M is).2.2 = (readMessage T M' is).2.2 ∧
      ((readMessage T M is).1 = true → (readMessage T M is).2.1 = (readMessage T M' is).2.1) := by
  unfold readMessage
  split
  · exact ⟨rfl, rfl, nofun⟩
  · split
    · exact ⟨rfl, rfl, fun _ => rfl⟩
    · exact ⟨rfl, rfl, nofun⟩

theorem reads_congr {gzip : Bool} (n : Nat) (M M' : Msg) (is : Bytes) :
    MessageIstream.reads T n ⟨gzip, some is⟩ M = MessageIstream.reads T n ⟨gzip, some is⟩ M' := by
  induction n generalizing M M' is with
  | zero => rfl
  | succ n ih =>
    have h := readMessage_congr (T := T) M M' is
    rw [reads_succ, reads_succ, h.2.1, ih _ (readMessage T M' is).2.1]
    congr 1
    rw [← h.1]
    split
    · next hok => rw [h.2.2 hok]
    · rfl

theorem reads_nil {gzip : Bool} (n : Nat) (M : Msg) :
    MessageIstream.reads T n ⟨gzip, some []⟩ M = List.replicate n none := by
  induction n with
  | zero => rfl
  | succ n ih =>
    rw [reads_succ, readMessage_nil, List.replicate_succ, ih]
    rfl

/-- Behind a read that fails and leaves nothing, all reads fail. -/
theorem reads_of_failed {gzip : Bool} {M M' : Msg} {is : Bytes}
    (h : readMessage T M is = (false, M', [])) (n : Nat) :
    MessageIstream.reads T n ⟨gzip, some is⟩ M = List.replicate n none := by
  cases n with
  | zero => rfl
  | succ n =>
    rw [reads_succ, h, List.replicate_succ, reads_nil]
    rfl

/-! ## Truncated recordings -/

/-- The messages whose length and whole payload lie in the first `n` bytes of the recording. -/
def complete (T : MessageType Msg) : List Msg → Nat → List Msg
  | [], _ => []
  | m :: ms, n => if frameSize T m ≤ n then m :: complete T ms (n - frameSize T m) else []

/-- The recording is cut after `n` bytes inside a payload, and what is left of the payload is itself
a valid encoding. -/
def CutReadable (T : MessageType Msg) : List Msg → Nat → Prop
  | [], _ => False
  | m :: ms, n =>
    if frameSize T m ≤ n then CutReadable T ms (n - frameSize T m)
    else prefixSize T m ≤ n ∧ (T.parse ((T.serialize m).take (n - prefixSize T m))).isSome

instance CutReadable.decidable (T : MessageType Msg) :
    (ms : List Msg) → (n : Nat) → Decidable (CutReadable T ms n)
  | [], _ => isFalse id
  | m :: ms, n =>
    if h : frameSize T m ≤ n then
      have := CutReadable.decidable T ms (n - frameSize T m)
      decidable_of_iff (CutReadable T ms (n - frameSize T m)) (by rw [CutReadable, if_pos h])
    else
      decidable_of_iff
        (prefixSize T m ≤ n ∧ (T.parse ((T.serialize m).take (n - prefixSize T m))).isSome)
        (by rw [CutReadable, if_neg h])

/-- Successive reads return the complete messages, and then fail. -/
def ReadsComplete (T : MessageType Msg) (ms : List Msg) (p : Bytes) : Prop :=
  ∀ M n, MessageIstream.reads T n ⟨false, some p⟩ M =
    ((complete T ms p.length).take n).map some ++
      List.replicate (n - (complete T ms p.length).length) none

theorem readsComplete_of_failed (M' : Msg → Msg) {p : Bytes} (hc : complete T ms p.length = [])
    (h : ∀ M, readMessage T M p = (false, M' M, [])) : ReadsComplete T ms p := by
  intro M n
  rw [reads_of_failed (h M), hc]
  simp

theorem readsComplete_cons (hm : (T.serialize m).length ≤ intMax) (p : Bytes) :
    ReadsComplete T (m :: ms) (frame T m ++ p) ↔ ReadsComplete T ms p := by
  have hlen : (frame T m ++ p).length = frameSize T m + p.length := by
    rw [List.length_append, length_frame]
  have hc : complete T (m :: ms) (frame T m ++ p).length = m :: complete T ms p.length := by
    rw [complete, if_pos (by omega), hlen, Nat.add_sub_cancel_left]
  -- the first read is the same on both sides, whatever the message held before
  have hstep : ∀ M n, MessageIstream.reads T (n + 1) ⟨false, some (frame T m ++ p)⟩ M =
      some m :: MessageIstream.reads T n ⟨false, some p⟩ m := by
    intro M n
    rw [reads_succ, readMessage_frame hm]
    rfl
  constructor
  · intro h M n
    have hn := h M (n + 1)
    rw [hstep, hc, List.take_succ_cons, List.map_cons, List.cons_append, List.length_cons,
      Nat.add_sub_add_right, List.cons.injEq] at hn
    rw [reads_congr n M m]
    exact hn.2
  · intro h M n
    cases n with
    | zero => simp [MessageIstream.reads]
    | succ n =>
      rw [hstep, h m n, hc, List.take_succ_cons, List.map_cons, List.cons_append,
        List.length_cons, Nat.add_sub_add_right]

/-- The cut is in the length of the first message. -/
theorem readsComplete_of_short {p : Bytes} (hp : p <+: frame T m)
    (hshort : p.length < prefixSize T m) : ReadsComplete T (m :: ms) p := by
  have hfit : ¬frameSize T m ≤ p.length := by
    unfold frameSize
    omega
  have hpre : p <+: writeVarint32 (T.serialize m).length :=
    List.prefix_of_prefix_length_le hp (List.prefix_append _ _) (Nat.le_of_lt hshort)
  obtain ⟨q, hq⟩ := hpre
  have hne : q ≠ [] := by
    intro he
    have hlen := congrArg List.length hq
    rw [he, List.append_nil] at hlen
    unfold prefixSize at hshort
    omega
  apply readsComplete_of_failed id
  · rw [complete, if_neg hfit]
  · intro M
    unfold readMessage
    rw [readVarint32_cut hne hq]
    rfl

/-- The cut is in the payload of the first message, and the parse is handed what is there. -/
theorem readsComplete_iff_of_payload {p : Bytes} (hm : (T.serialize m).length ≤ intMax)
    (hp : p <+: frame T m) (hfit : ¬frameSize T m ≤ p.length) (hpre : prefixSize T m ≤ p.length) :
    ReadsComplete T (m :: ms) p ↔
      T.parse ((T.serialize m).take (p.length - prefixSize T m)) = none := by
  have hc : complete T (m :: ms) p.length = [] := by rw [complete, if_neg hfit]
  have hW : writeVarint32 (T.serialize m).length <+: p :=
    List.prefix_of_prefix_length_le (List.prefix_append _ _) hp hpre
  obtain ⟨q, hq⟩ := hW
  have hpq : q <+: T.serialize m := by
    rw [← hq] at hp
    exact (List.prefix_append_right_inj _).mp hp
  have hlen : p.length - prefixSize T m = q.length := by
    rw [← hq, List.length_append]
    unfold prefixSize
    omega
  rw [hlen, ← List.prefix_iff_eq_take.mp hpq]
  have hread : ∀ M, readMessage T M p = match T.parse q with
      | some m' => (true, m', [])
      | none => (false, T.parseFailed M q, []) := by
    intro M
    rw [← hq]
    exact readMessage_cut hm M hpq.length_le
  cases hparse : T.parse q with
  | none =>
    simp only [hparse] at hread
    exact iff_of_true (readsComplete_of_failed _ hc hread) rfl
  | some m' =>
    simp only [hparse] at hread
    apply iff_of_false
    · -- one read is enough to see it
      intro h
      have h1 := h m 1
      rw [reads_succ, hread, hc] at h1
      cases h1
    · nofun

theorem readsComplete_iff (hms : ∀ m ∈ ms, (T.serialize m).length ≤ intMax) {p : Bytes}
    (hp : p <+: frames T ms) : ReadsComplete T ms p ↔ ¬CutReadable T ms p.length := by
  induction ms generalizing p with
  | nil =>
    have hnil : p = [] := List.prefix_nil.mp hp
    rw [hnil]
    exact iff_of_true (readsComplete_of_failed id rfl fun M => readMessage_nil M) id
  | cons m ms ih =>
    have hm := hms m List.mem_cons_self
    rw [frames_cons] at hp
    by_cases hfit : frameSize T m ≤ p.length
    · have hframe : frame T m <+: p :=
        List.prefix_of_prefix_length_le (List.prefix_append _ _) hp (by rw [length_frame]; exact hfit)
      obtain ⟨p', rfl⟩ := hframe
      rw [List.prefix_append_right_inj] at hp
      rw [CutReadable, if_pos hfit, readsComplete_cons hm, List.length_append, length_frame,
        Nat.add_sub_cancel_left]
      exact ih (fun m' hm' => hms m' (List.mem_cons_of_mem m hm')) hp
    · have hpm : p <+: frame T m :=
        List.prefix_of_prefix_length_le hp (List.prefix_append _ _) (by rw [length_frame]; omega)
      rw [CutReadable, if_neg hfit]
      by_cases hpre : prefixSize T m ≤ p.length
      · rw [readsComplete_iff_of_payload hm hpm hfit hpre, ← Option.isNone_iff_eq_none]
        simp [hpre]
      · exact iff_of_true (readsComplete_of_short hpm (by omega)) fun h => hpre h.1

theorem complete_frames (T : MessageType Msg) (ms : List Msg) :
    complete T ms (frames T ms).length = ms ∧ ¬CutReadable T ms (frames T ms).length := by
  induction ms with
  | nil => exact ⟨rfl, id⟩
  | cons m ms ih =>
    have hlen : (frames T (m :: ms)).length = frameSize T m + (frames T ms).length := by
      rw [frames_cons, List.length_append, length_frame]
    rw [complete, CutReadable, hlen, if_pos (by omega), if_pos (by omega), Nat.add_sub_cancel_left]
    exact ⟨congrArg (m :: ·) ih.1, ih.2⟩

/-- From a prefix of a recording the complete messages are read and nothing else, unless the part of
a payload before the cut is a valid encoding; from the whole recording all messages are read. -/
theorem reads_complete_iff (T : MessageType Msg) (ms : List Msg) (S : MessageOstream)
    (hwrite : (MessageOstream.create false).writeAll T ms = (true, S)) :
    (∀ p, p <+: S.os.getD [] → (ReadsComplete T ms p ↔ ¬CutReadable T ms p.length)) ∧
      ∀ M n, MessageIstream.reads T n ⟨false, S.os⟩ M =
        (ms.take n).map some ++ List.replicate (n - ms.length) none := by
  have h := writeAll_eq hwrite
  rw [h.2, List.nil_append]
  constructor
  · intro p hp
    exact readsComplete_iff h.1 hp
  · intro M n
    have hwhole := complete_frames T ms
    have hreads := (readsComplete_iff h.1 List.prefix_rfl).mpr hwhole.2 M n
    rw [hwhole.1] at hreads
    exact hreads

/-- The flag only says how the file is packed. -/
theorem reads_gzip (gzip gzip' : Bool) (j : Nat) (is : Option Bytes) (M : Msg) :
    MessageIstream.reads T j ⟨gzip, is⟩ M = MessageIstream.reads T j ⟨gzip', is⟩ M := by
  induction j generalizing is M with
  | zero => rfl
  | succ j ih =>
    unfold MessageIstream.reads MessageIstream.read
    cases is with
    | none =>
      dsimp only
      rw [ih]
    | some is =>
      dsimp only
      rw [ih]

/-- From the file of a stream that has the messages `ms` they are read back, in order. -/
theorem reads_file {gzip : Bool} {out : MessageOstream} (G : Gzip) (hgzip : out.gzip = gzip)
    (hos : out.os = some (frames T ms)) (hsize : ∀ m ∈ ms, (T.serialize m).length ≤ intMax)
    (j : Nat) (M : Msg) :
    MessageIstream.reads T j (MessageIstream.create G (out.file G) gzip) M =
      (ms.take j).map some ++ List.replicate (j - ms.length) none := by
  have hfile : MessageIstream.create G (out.file G) gzip = ⟨gzip, some (frames T ms)⟩ := by
    unfold MessageIstream.create MessageOstream.file
    rw [hgzip, hos]
    cases gzip with
    | true =>
      show (⟨true, some (G.decompress (G.compress (frames T ms)))⟩ : MessageIstream) = _
      rw [G.decompress_compress]
    | false => rfl
  obtain ⟨hcomplete, hcut⟩ := complete_frames T ms
  have hreads := (readsComplete_iff hsize List.prefix_rfl).mpr hcut M j
  rw [hcomplete] at hreads
  rw [hfile, reads_gzip gzip false, hreads]

/-- The parse of a message with two bool fields, numbered 1 and 2. -/
def parseFlags : Bool × Bool → Bytes → Option (Bool × Bool)
  | r, [] => some r
  | _, [_] => none
  | r, tag :: v :: is =>
    if tag = 8 ∧ v ≤ 1 then parseFlags (v = 1, r.2) is
    else if tag = 16 ∧ v ≤ 1 then parseFlags (r.1, v = 1) is
    else none

def flagsMessage : MessageType (Bool × Bool) where
  new := (false, false)
  serialize m := (if m.1 then [8, 1] else []) ++ if m.2 then [16, 1] else []
  parse := parseFlags (false, false)
  parseFailed _ _ := (false, false)
  parse_serialize := by
    intro ⟨a, b⟩
    cases a <;> cases b <;> rfl

theorem reads_complete_flags :
    (MessageOstream.create false).writeAll flagsMessage [(true, true)] =
        (true, ⟨false, some [4, 8, 1, 16, 1]⟩) ∧
      ReadsComplete flagsMessage [(true, true)] [4, 8] := by
  refine ⟨by decide, ?_⟩
  have h := reads_complete_iff flagsMessage [(true, true)] ⟨false, some [4, 8, 1, 16, 1]⟩ (by decide)
  exact (h.1 [4, 8] (by decide)).mpr (by decide)

/-- The recording of one message is cut between its fields: the first field is read as a message. -/
theorem cutBetweenFields_read :
    (MessageOstream.create false).writeAll flagsMessage [(true, true)] =
        (true, ⟨false, some [4, 8, 1, 16, 1]⟩) ∧
      [4, 8, 1] <+: ([4, 8, 1, 16, 1] : Bytes) ∧
      MessageIstream.reads flagsMessage 1 ⟨false, some [4, 8, 1]⟩ (false, false) =
        [some (true, false)] ∧
      ¬ReadsComplete flagsMessage [(true, true)] [4, 8, 1] := by
  refine ⟨by decide, by decide, by decide, ?_⟩
  intro h
  exact absurd (h (false, false) 1) (by decide)

/-! ## Dumping a recording -/

/-- The loop of `dump_messages`, with the messages that the callback is invoked with; the fuel bounds
the number of reads. -/
def dumpLoop (T : MessageType Msg) : Nat → Msg → MessageIstream → Option (List Msg)
  | 0, _, _ => none
  | fuel + 1, M, MS =>
    let r := MS.read T M
    if r.1 then (dumpLoop T fuel r.2.1 r.2.2).map (r.2.1 :: ·) else some [r.2.1]

/-- `dump_messages`. -/
def dumpMessages (T : MessageType Msg) (G : Gzip) (fuel : Nat) (file : Bytes) : Option (List Msg) :=
  dumpLoop T fuel T.new (MessageIstream.create G file true)

/-- The callback is invoked once for each message, in their order. -/
def DumpsEachOnce (T : MessageType Msg) (G : Gzip) (ms : List Msg) (file : Bytes) : Prop :=
  ∃ fuel, dumpMessages T G fuel file = some ms

theorem dumpLoop_frames (hms : ∀ m ∈ ms, (T.serialize m).length ≤ intMax) (fuel : Nat) (M : Msg) :
    dumpLoop T fuel M ⟨true, some (frames T ms)⟩ =
      if ms.length < fuel then some (ms ++ [ms.getLast?.getD M]) else none := by
  induction ms generalizing fuel M with
  | nil => cases fuel <;> rfl
  | cons m ms ih =>
    cases fuel with
    | zero => rfl
    | succ fuel =>
      have hread : MessageIstream.read T ⟨true, some (frames T (m :: ms))⟩ M =
          (true, m, ⟨true, some (frames T ms)⟩) := by
        unfold MessageIstream.read
        rw [frames_cons]
        show ((readMessage T M (frame T m ++ frames T ms)).1, _, _) = _
        rw [readMessage_frame (hms m List.mem_cons_self)]
      have hrec := ih (fun m' hm' => hms m' (List.mem_cons_of_mem m hm')) fuel m
      have hlast : (m :: ms).getLast?.getD M = ms.getLast?.getD m := by
        rw [List.getLast?_cons]
        rfl
      show (if (MessageIstream.read T ⟨true, some (frames T (m :: ms))⟩ M).1 then _ else _) = _
      rw [hread, if_pos rfl, hrec, hlast, List.length_cons]
      by_cases hlt : ms.length < fuel
      · rw [if_pos hlt, if_pos (by omega)]
        rfl
      · rw [if_neg hlt, if_neg (by omega)]
        rfl

/-- The callback is also invoked after the read that fails at the end of the file, with the last
message again or with an empty one: for no recording it is invoked once for each message. -/
theorem dumpMessages_repeats_last (T : MessageType Msg) (G : Gzip) (ms : List Msg)
    (S : MessageOstream) (hwrite : (MessageOstream.create true).writeAll T ms = (true, S)) :
    (∃ fuel, dumpMessages T G fuel (S.file G) = some (ms ++ [ms.getLast?.getD T.new])) ∧
      ¬DumpsEachOnce T G ms (S.file G) := by
  have h := writeAll_eq hwrite
  have hfile : MessageIstream.create G (S.file G) true = ⟨true, some (frames T ms)⟩ := by
    rw [h.2, List.nil_append]
    show (⟨true, some (G.decompress (G.compress (frames T ms)))⟩ : MessageIstream) = _
    rw [G.decompress_compress]
  unfold DumpsEachOnce dumpMessages
  rw [hfile]
  constructor
  · exists ms.length + 1
    rw [dumpLoop_frames h.1, if_pos (by omega)]
  · intro ⟨fuel, hdump⟩
    rw [dumpLoop_frames h.1] at hdump
    split at hdump
    · have hlen := congrArg List.length (Option.some.inj hdump)
      rw [List.length_append, List.length_singleton] at hlen
      omega
    · cases hdump

def storedGzip : Gzip := ⟨id, id, fun _ => rfl⟩

theorem dumpMessages_oneMessage :
    (MessageOstream.create true).writeAll flagsMessage [(true, false)] =
        (true, ⟨true, some [2, 8, 1]⟩) ∧
      dumpMessages flagsMessage storedGzip 2 [2, 8, 1] = some [(true, false), (true, false)] ∧
      ¬DumpsEachOnce flagsMessage storedGzip [(true, false)] [2, 8, 1] := by
  refine ⟨by decide, by decide, ?_⟩
  exact (dumpMessages_repeats_last flagsMessage storedGzip [(true, false)]
    ⟨true, some [2, 8, 1]⟩ (by decide)).2

/-- The callback is invoked although the recording holds no message. -/
theorem emptyRecording_dumped :
    (MessageOstream.create true).writeAll flagsMessage [] = (true, ⟨true, some []⟩) ∧
      dumpMessages flagsMessage storedGzip 1 [] = some [(false, false)] ∧
      ¬DumpsEachOnce flagsMessage storedGzip [] [] := by
  refine ⟨by decide, by decide, ?_⟩
  intro ⟨fuel, hdump⟩
  cases fuel with
  | zero => cases hdump
  | succ fuel => exact absurd hdump (by nofun)

end Ra2yrcpp.Protocol
