import Ra2yrcpp.Hook.Registration
import Ra2yrcpp.Protocol.MessageStream

/-!
# The record file

`init_callbacks` opens the file of `RA2YRCPP_RECORD_PATH` and makes a `CBSaveState` that writes to
it, each time it is called: nothing sets `callbacks_initialized`, and where the map has a
`CBSaveState` already, `try_emplace` drops the new one.  A run here has no end of the game loop.
-/

namespace Ra2yrcpp.Hook.Recording

open Reasoning Protocol
open Hook.Registration (Callback ObjectId)

variable {Msg : Type}

/-! ## Files and streams -/

/-- A write behind the end of a file leaves zeros between. -/
def writeAt (file : Bytes) (offset : Nat) (b : Bytes) : Bytes :=
  file.take offset ++ List.replicate (offset - file.length) 0 ++ b ++ file.drop (offset + b.length)

/-- `GzipOutputStream`: what it has handed on after some writes, and what its destructor hands on
then. -/
structure GzipOutputStream where
  output : List Bytes → Bytes
  finish : List Bytes → Bytes
  decompress : Bytes → Bytes
  output_prefix : ∀ chunks c, output chunks <+: output (chunks ++ [c])
  decompress_close : ∀ chunks, decompress (output chunks ++ finish chunks) = chunks.flatten

/-- The `MessageOstream` of a `CBSaveState`: what was written to it, and how much of its output has
reached the file.  The file stream goes on where it was, whatever becomes of the file. -/
structure RecordStream where
  chunks : List Bytes := []
  sent : Nat := 0

structure State (Msg : Type) where
  reg : Registration.State
  streams : ObjectId → RecordStream
  file : Bytes
  /-- How often `record_path` was opened for writing. -/
  opened : Nat
  /-- How many `CreateCallbacks` commands have been executed. -/
  commands : Nat
  /-- The states that were written since the first of them. -/
  recorded : List Msg

def State.init : State Msg := ⟨Registration.State.init, fun _ => {}, [], 0, 0, []⟩

inductive Action (Msg : Type)
  | createHook (name : String) (address : Nat)
  | createCallbacks
  /-- The worker of a `CBSaveState` that some hook calls. -/
  | serializeState (object : ObjectId) (m : Msg)
  /-- The next `n` bytes of the output reach the file. -/
  | flush (object : ObjectId) (n : Nat)

def Action.isCreateCallbacks : Action Msg → Bool
  | .createCallbacks => true
  | _ => false

section Step

variable (G : GzipOutputStream) (T : MessageType Msg) (recordTraffic : Bool)

/-- What the file holds once the stream of the object is closed. -/
def closedFile (s : State Msg) (object : ObjectId) : Bytes :=
  let r := s.streams object
  writeAt s.file r.sent ((G.output r.chunks).drop r.sent ++ G.finish r.chunks)

/-- `init_callbacks` with `RA2YRCPP_RECORD_PATH` set.  A `CBSaveState` that is dropped closes its
stream, on which nothing was written. -/
def initCallbacks (s : State Msg) : State Msg :=
  let reg := Registration.initCallbacks recordTraffic s.reg
  let s' := { s with reg, file := [], opened := s.opened + 1 }
  match s.reg.callbacks .saveState, reg.callbacks .saveState with
  | none, some object => { s' with streams := Function.update s.streams object {} }
  | _, _ => { s' with file := writeAt [] 0 (G.output [] ++ G.finish []) }

def createCallbacks (s : State Msg) : State Msg :=
  let s := initCallbacks G recordTraffic s
  { s with reg := Registration.addCallbacks Callback.all s.reg, commands := s.commands + 1 }

def step (s : State Msg) : Action Msg → Option (State Msg)
  | .createHook name address => some { s with reg := Registration.createHook s.reg name address }
  | .createCallbacks => some (createCallbacks G recordTraffic s)
  | .serializeState object m =>
    if (∃ h ∈ s.reg.hooks, ⟨.saveState, object⟩ ∈ h.callbacks) ∧
        (T.serialize m).length ≤ intMax then
      let r := s.streams object
      some { s with
        streams := Function.update s.streams object { r with chunks := r.chunks ++ [frame T m] }
        recorded := s.recorded ++ [m] }
    else none
  | .flush object n =>
    let r := s.streams object
    if s.reg.callbacks .saveState = some object ∧ r.sent + n ≤ (G.output r.chunks).length then
      some { s with
        file := writeAt s.file r.sent (((G.output r.chunks).drop r.sent).take n)
        streams := Function.update s.streams object { r with sent := r.sent + n } }
    else none

/-- Since the first `CreateCallbacks` the file was opened once, another `init_callbacks` leaves the
map as it is, and the file, once it is closed, holds every state that was written. -/
def Kept (s : State Msg) : Prop :=
  0 < s.commands →
    s.opened = 1 ∧ (Registration.initCallbacks recordTraffic s.reg).callbacks = s.reg.callbacks ∧
      ∀ object, s.reg.callbacks .saveState = some object →
        G.decompress (closedFile G s object) = frames T s.recorded

/-- The first `CreateCallbacks` is the only one. -/
def FirstCommand (s : State Msg) (a : Action Msg) : Prop :=
  a.isCreateCallbacks = true → s.commands = 0

/-- The `CBSaveState` that a hook calls is the one in the map. -/
def Matches (s : Registration.State) : Prop :=
  ∀ h ∈ s.hooks, ∀ r ∈ h.callbacks, r.callback = .saveState →
    s.callbacks .saveState = some r.object

/-- What holds in every state. -/
structure Inv (s : State Msg) : Prop where
  opened : s.opened = s.commands
  registered : Matches s.reg
  initialized : 0 < s.commands → ∀ c ∈ Registration.defaults recordTraffic,
    (s.reg.callbacks c).isSome
  fresh : s.commands = 0 → s.reg.callbacks .saveState = none
  unrecorded : s.reg.callbacks .saveState = none → s.recorded = []
  chunks : ∀ object, s.reg.callbacks .saveState = some object →
    (s.streams object).chunks = s.recorded.map (frame T)
  /-- As long as the file was opened once, it is the output so far. -/
  file : s.commands ≤ 1 → ∀ object, s.reg.callbacks .saveState = some object →
    (s.streams object).sent ≤ (G.output (s.streams object).chunks).length ∧
      s.file = (G.output (s.streams object).chunks).take (s.streams object).sent

end Step

/-! ## Writing at the end of the file -/

theorem writeAt_take (b c : Bytes) {offset : Nat} (h : offset ≤ b.length) :
    writeAt (b.take offset) offset c = b.take offset ++ c := by
  have hlength : (b.take offset).length = offset := List.length_take_of_le h
  unfold writeAt
  rw [hlength, Nat.sub_self, List.take_of_length_le (Nat.le_of_eq hlength),
    List.drop_eq_nil_of_le (by omega)]
  simp

/-! ## The map of callbacks -/

theorem tryEmplace_of_isSome {s : Registration.State} {c : Callback} (h : (s.callbacks c).isSome) :
    (Registration.tryEmplace s c).callbacks = s.callbacks := if_pos h

/-- An object that is in the map stays. -/
theorem tryEmplace_callbacks_of_isSome {s : Registration.State} {c d : Callback}
    (h : (s.callbacks d).isSome) : (Registration.tryEmplace s c).callbacks d = s.callbacks d := by
  unfold Registration.tryEmplace
  dsimp only
  split
  · rfl
  · next hc =>
    have hne : d ≠ c := by
      intro he
      exact hc (he ▸ h)
    exact Function.update_of_ne hne _ _

theorem foldl_tryEmplace_of_isSome {s : Registration.State} {d : Callback} (cs : List Callback)
    (h : (s.callbacks d).isSome) :
    (cs.foldl Registration.tryEmplace s).callbacks d = s.callbacks d := by
  induction cs generalizing s with
  | nil => rfl
  | cons c cs ih =>
    have hc := tryEmplace_callbacks_of_isSome (c := c) h
    rw [List.foldl_cons, ih (by rwa [hc]), hc]

theorem isSome_foldl_tryEmplace {s : Registration.State} {c : Callback} {cs : List Callback}
    (h : c ∈ cs) : ((cs.foldl Registration.tryEmplace s).callbacks c).isSome := by
  induction cs generalizing s with
  | nil => cases h
  | cons d cs ih =>
    rw [List.foldl_cons]
    cases List.mem_cons.mp h with
    | inl he =>
      have hd : ((Registration.tryEmplace s d).callbacks c).isSome := by
        subst he
        unfold Registration.tryEmplace
        dsimp only
        split
        · assumption
        · rw [Function.update_self]
          rfl
      rwa [foldl_tryEmplace_of_isSome cs hd]
    | inr hmem => exact ih hmem

/-- `init_callbacks` adds nothing to a map that has its callbacks. -/
theorem initCallbacks_callbacks_of_isSome {recordTraffic : Bool} {s : Registration.State}
    (h : ∀ c ∈ Registration.defaults recordTraffic, (s.callbacks c).isSome) :
    (Registration.initCallbacks recordTraffic s).callbacks = s.callbacks := by
  unfold Registration.initCallbacks
  generalize Registration.defaults recordTraffic = cs at h
  induction cs generalizing s with
  | nil => rfl
  | cons c cs ih =>
    have hc := tryEmplace_of_isSome (h c List.mem_cons_self)
    rw [List.foldl_cons, ih, hc]
    intro d hd
    rw [hc]
    exact h d (List.mem_cons_of_mem c hd)

theorem initCallbacks_hooks (recordTraffic : Bool) (s : Registration.State) :
    (Registration.initCallbacks recordTraffic s).hooks = s.hooks := by
  unfold Registration.initCallbacks
  generalize Registration.defaults recordTraffic = cs
  induction cs generalizing s with
  | nil => rfl
  | cons c cs ih => exact ih (Registration.tryEmplace s c)

theorem addCallbacks_callbacks (cs : List Callback) (s : Registration.State) :
    (Registration.addCallbacks cs s).callbacks = s.callbacks := by
  induction cs generalizing s with
  | nil => rfl
  | cons c cs ih =>
    unfold Registration.addCallbacks
    split
    · exact ih s
    · split
      · rfl
      · split
        · rfl
        · exact ih _

theorem Matches.addCallbacks {s : Registration.State} (hs : Matches s) (cs : List Callback) :
    Matches (Registration.addCallbacks cs s) := by
  induction cs generalizing s with
  | nil => exact hs
  | cons c cs ih =>
    unfold Registration.addCallbacks
    split
    · exact ih hs
    · next object hobject =>
      split
      · exact hs
      · next h hfind =>
        split
        · exact hs
        · apply ih
          intro g hg r hr hc
          obtain ⟨k, hk, rfl⟩ := List.mem_map.mp hg
          unfold Registration.HookEntry.update at hr
          split at hr
          · cases List.mem_append.mp hr with
            | inl hold => exact hs k hk r hold hc
            | inr hnew =>
              have he := List.mem_singleton.mp hnew
              subst he
              exact hc ▸ hobject
          · exact hs k hk r hr hc

theorem Matches.createHook {s : Registration.State} (hs : Matches s) (name : String)
    (address : Nat) : Matches (Registration.createHook s name address) := by
  unfold Registration.createHook
  split
  · exact hs
  · intro g hg r hr hc
    cases Registration.mem_insertHook.mp hg with
    | inl he =>
      rw [he] at hr
      cases hr
    | inr hmem => exact hs g hmem r hr hc

/-! ## Steps -/

section Invariant

variable {G : GzipOutputStream} {T : MessageType Msg} {recordTraffic : Bool} {s t : State Msg}

theorem inv_init : Inv G T recordTraffic (State.init : State Msg) where
  opened := rfl
  registered _ h := nomatch h
  initialized h := absurd h (Nat.lt_irrefl 0)
  fresh _ := rfl
  unrecorded _ := rfl
  chunks _ h := nomatch h
  file _ _ h := nomatch h

theorem saveState_mem_defaults (recordTraffic : Bool) :
    Callback.saveState ∈ Registration.defaults recordTraffic := by
  cases recordTraffic <;> decide

/-- `init_callbacks` puts a new `CBSaveState` on the new file, or drops it. -/
theorem initCallbacks_cases (G : GzipOutputStream) (recordTraffic : Bool) (s : State Msg) :
    let reg := Registration.initCallbacks recordTraffic s.reg
    (∃ object, s.reg.callbacks .saveState = none ∧ reg.callbacks .saveState = some object ∧
        initCallbacks G recordTraffic s =
          { s with
            reg
            file := []
            opened := s.opened + 1
            streams := Function.update s.streams object {} }) ∨
      ∃ object, s.reg.callbacks .saveState = some object ∧ reg.callbacks .saveState = some object ∧
        initCallbacks G recordTraffic s =
          { s with
            reg
            file := writeAt [] 0 (G.output [] ++ G.finish [])
            opened := s.opened + 1 } := by
  intro reg
  have hsome : (reg.callbacks .saveState).isSome :=
    isSome_foldl_tryEmplace (saveState_mem_defaults recordTraffic)
  obtain ⟨object, hobject⟩ := Option.isSome_iff_exists.mp hsome
  unfold initCallbacks
  cases hold : s.reg.callbacks .saveState with
  | none =>
    refine .inl ⟨object, rfl, hobject, ?_⟩
    dsimp only
    rw [hobject]
  | some old =>
    have hkept : reg.callbacks .saveState = s.reg.callbacks .saveState :=
      foldl_tryEmplace_of_isSome _ (by rw [hold]; rfl)
    exact .inr ⟨old, rfl, hkept.trans hold, rfl⟩

theorem Inv.createCallbacks (h : Inv G T recordTraffic s) :
    Inv G T recordTraffic (createCallbacks G recordTraffic s) := by
  have hmatches : Matches (Registration.addCallbacks Callback.all
      (Registration.initCallbacks recordTraffic s.reg)) := by
    apply Matches.addCallbacks
    intro g hg r hr hc
    rw [initCallbacks_hooks] at hg
    -- a hook that calls a `CBSaveState` shows that the map has one, which stays
    have hold := h.registered g hg r hr hc
    have hsome : (s.reg.callbacks .saveState).isSome := by rw [hold]; rfl
    exact (foldl_tryEmplace_of_isSome _ hsome).trans hold
  have hinitialized : ∀ c ∈ Registration.defaults recordTraffic,
      ((Registration.addCallbacks Callback.all
        (Registration.initCallbacks recordTraffic s.reg)).callbacks c).isSome := by
    intro c hc
    rw [addCallbacks_callbacks]
    exact isSome_foldl_tryEmplace hc
  have hnone : ¬(Registration.addCallbacks Callback.all
      (Registration.initCallbacks recordTraffic s.reg)).callbacks .saveState = none := by
    intro hnone
    have hsome := hinitialized _ (saveState_mem_defaults recordTraffic)
    rw [hnone] at hsome
    cases hsome
  unfold Recording.createCallbacks
  rcases initCallbacks_cases G recordTraffic s with hnew | hold
  -- the first one: the file and its stream are new
  · obtain ⟨object, hfresh, hobject, hinit⟩ := hnew
    have hunrecorded := h.unrecorded hfresh
    rw [hinit]
    refine ⟨congrArg (· + 1) h.opened, hmatches, fun _ => hinitialized, nofun,
      fun hn => absurd hn hnone, ?_, ?_⟩
    · intro object' hobject'
      rw [addCallbacks_callbacks, hobject] at hobject'
      cases hobject'
      dsimp only
      rw [Function.update_self, hunrecorded]
      rfl
    · intro _ object' hobject'
      rw [addCallbacks_callbacks, hobject] at hobject'
      cases hobject'
      dsimp only
      rw [Function.update_self]
      exact ⟨Nat.zero_le _, rfl⟩
  · obtain ⟨object, hthere, hobject, hinit⟩ := hold
    rw [hinit]
    refine ⟨congrArg (· + 1) h.opened, hmatches, fun _ => hinitialized, nofun,
      fun hn => absurd hn hnone, ?_, ?_⟩
    · intro object' hobject'
      rw [addCallbacks_callbacks, hobject] at hobject'
      cases hobject'
      exact h.chunks object hthere
    · intro hone
      -- a `CBSaveState` in the map has come with an earlier command
      have hzero : s.commands = 0 := Nat.le_zero.mp (Nat.le_of_succ_le_succ hone)
      rw [h.fresh hzero] at hthere
      cases hthere

theorem Inv.serializeState {object : ObjectId} {m : Msg} (h : Inv G T recordTraffic s)
    (hobject : s.reg.callbacks .saveState = some object) :
    Inv G T recordTraffic { s with
      streams := Function.update s.streams object
        { s.streams object with chunks := (s.streams object).chunks ++ [frame T m] }
      recorded := s.recorded ++ [m] } := by
  refine ⟨h.opened, h.registered, h.initialized, h.fresh, ?_, ?_, ?_⟩
  · intro hnone
    rw [hobject] at hnone
    cases hnone
  · intro object' hobject'
    rw [hobject] at hobject'
    cases hobject'
    dsimp only
    rw [Function.update_self, h.chunks object hobject, List.map_append]
    rfl
  · intro hone object' hobject'
    rw [hobject] at hobject'
    cases hobject'
    obtain ⟨hsent, hfile⟩ := h.file hone object hobject
    -- what was sent already is not affected by one more chunk
    obtain ⟨more, hmore⟩ := G.output_prefix (s.streams object).chunks (frame T m)
    dsimp only
    rw [Function.update_self]
    dsimp only
    rw [← hmore, List.length_append, List.take_append_of_le_length hsent]
    exact ⟨by omega, hfile⟩

theorem Inv.flush {object : ObjectId} {n : Nat} (h : Inv G T recordTraffic s)
    (hobject : s.reg.callbacks .saveState = some object)
    (hn : (s.streams object).sent + n ≤ (G.output (s.streams object).chunks).length) :
    Inv G T recordTraffic { s with
      file := writeAt s.file (s.streams object).sent
        (((G.output (s.streams object).chunks).drop (s.streams object).sent).take n)
      streams := Function.update s.streams object
        { s.streams object with sent := (s.streams object).sent + n } } := by
  refine ⟨h.opened, h.registered, h.initialized, h.fresh, h.unrecorded, ?_, ?_⟩
  · intro object' hobject'
    rw [hobject] at hobject'
    cases hobject'
    dsimp only
    rw [Function.update_self]
    exact h.chunks object hobject
  · intro hone object' hobject'
    rw [hobject] at hobject'
    cases hobject'
    obtain ⟨hsent, hfile⟩ := h.file hone object hobject
    dsimp only
    rw [Function.update_self]
    dsimp only
    -- the stream writes where the file ends
    rw [hfile, writeAt_take _ _ hsent, List.take_add]
    exact ⟨hn, rfl⟩

theorem inv_step {a : Action Msg} (h : Inv G T recordTraffic s)
    (hstep : step G T recordTraffic s a = some t) : Inv G T recordTraffic t := by
  cases a with
  | createHook name address =>
    rw [← Option.some.inj hstep]
    have hcallbacks : (Registration.createHook s.reg name address).callbacks = s.reg.callbacks := by
      unfold Registration.createHook
      split <;> rfl
    constructor
    · exact h.opened
    · exact h.registered.createHook name address
    · simpa only [hcallbacks] using h.initialized
    · simpa only [hcallbacks] using h.fresh
    · simpa only [hcallbacks] using h.unrecorded
    · simpa only [hcallbacks] using h.chunks
    · simpa only [hcallbacks] using h.file
  | createCallbacks =>
    rw [← Option.some.inj hstep]
    exact h.createCallbacks
  | serializeState object m =>
    obtain ⟨⟨hregistered, -⟩, hsome⟩ := Option.ite_none_right_eq_some.mp hstep
    obtain ⟨g, hg, hr⟩ := hregistered
    rw [← Option.some.inj hsome]
    exact h.serializeState (h.registered g hg _ hr rfl)
  | flush object n =>
    obtain ⟨⟨hobject, hn⟩, hsome⟩ := Option.ite_none_right_eq_some.mp hstep
    rw [← Option.some.inj hsome]
    exact h.flush hobject hn

/-- The file is what it should be as long as there was one `CreateCallbacks`, and then no more. -/
theorem kept_iff (h : Inv G T recordTraffic s) : Kept G T recordTraffic s ↔ s.commands ≤ 1 := by
  constructor
  · intro hkept
    by_cases hzero : s.commands = 0
    · omega
    · have hopened := (hkept (Nat.pos_of_ne_zero hzero)).1
      rw [h.opened] at hopened
      omega
  · intro hone hpos
    have hopened : s.opened = 1 := by
      rw [h.opened]
      omega
    refine ⟨hopened, initCallbacks_callbacks_of_isSome (h.initialized hpos), ?_⟩
    intro object hobject
    obtain ⟨hsent, hfile⟩ := h.file hone object hobject
    unfold closedFile
    dsimp only
    -- the part in the file, the rest of the output, and the trailer
    rw [hfile, writeAt_take _ _ hsent, ← List.append_assoc, List.take_append_drop,
      G.decompress_close, h.chunks object hobject]
    exact List.flatMap_def.symm

theorem step_commands {a : Action Msg} (hstep : step G T recordTraffic s a = some t) :
    t.commands = s.commands + if a.isCreateCallbacks then 1 else 0 := by
  cases a with
  | createHook name address =>
    rw [← Option.some.inj hstep]
    rfl
  | createCallbacks =>
    rw [← Option.some.inj hstep]
    rcases initCallbacks_cases G recordTraffic s with hnew | hold
    · obtain ⟨object, -, -, hinit⟩ := hnew
      unfold createCallbacks
      rw [hinit]
      rfl
    · obtain ⟨object, -, -, hinit⟩ := hold
      unfold createCallbacks
      rw [hinit]
      rfl
  | serializeState object m =>
    obtain ⟨-, hsome⟩ := Option.ite_none_right_eq_some.mp hstep
    rw [← Option.some.inj hsome]
    rfl
  | flush object n =>
    obtain ⟨-, hsome⟩ := Option.ite_none_right_eq_some.mp hstep
    rw [← Option.some.inj hsome]
    rfl

theorem conforms_iff_count {acts : List (Action Msg)}
    (hrun : run (step G T recordTraffic) s acts = some t) :
    Conforms (step G T recordTraffic) FirstCommand s acts ↔
      acts.countP Action.isCreateCallbacks = 0 ∨
        s.commands + acts.countP Action.isCreateCallbacks ≤ 1 := by
  induction acts generalizing s with
  | nil => exact iff_of_true trivial (.inl rfl)
  | cons a acts ih =>
    obtain ⟨u, hstep, hrest⟩ := run_cons_eq_some.mp hrun
    have hcommands := step_commands hstep
    rw [conforms_cons hstep, ih hrest, hcommands, List.countP_cons]
    unfold FirstCommand
    cases a.isCreateCallbacks with
    | false => simp
    | true =>
      simp only [if_true, forall_const]
      omega

end Invariant

/-- In a run without the end of a game, the file is opened once and keeps every state that was
written, and the map of callbacks stays the same, exactly when there is at most one
`CreateCallbacks`. -/
theorem always_kept_iff (G : GzipOutputStream) (T : MessageType Msg) (recordTraffic : Bool)
    {acts : List (Action Msg)} {s : State Msg}
    (hrun : run (step G T recordTraffic) State.init acts = some s) :
    Always (step G T recordTraffic) (Kept G T recordTraffic) State.init acts ↔
      acts.countP Action.isCreateCallbacks ≤ 1 := by
  have hinv : ∀ s a t, Inv G T recordTraffic s → step G T recordTraffic s a = some t →
      Inv G T recordTraffic t := fun _ _ _ h hstep => inv_step h hstep
  have hiff : ∀ s a t, Inv G T recordTraffic s → Kept G T recordTraffic s →
      step G T recordTraffic s a = some t → (Kept G T recordTraffic t ↔ FirstCommand s a) := by
    intro s a t h hkept hstep
    have hcommands := step_commands hstep
    rw [kept_iff h] at hkept
    rw [kept_iff (inv_step h hstep), hcommands]
    unfold FirstCommand
    cases a.isCreateCallbacks with
    | false => simpa using hkept
    | true =>
      simp only [if_true, forall_const]
      omega
  have hinv₀ : Inv G T recordTraffic State.init := inv_init
  have hinit := kept_iff hinv₀
  rw [always_iff_conforms hinv hiff inv_init (hinit.mpr (Nat.zero_le 1)) hrun,
    conforms_iff_count hrun]
  show _ ∨ 0 + _ ≤ 1 ↔ _
  omega

/-- A format with a header of two bytes and a trailer of one. -/
def storedStream : GzipOutputStream where
  output chunks := if chunks = [] then [] else [0x1f, 0x8b] ++ chunks.flatten
  finish chunks := if chunks = [] then [0x1f, 0x8b, 0] else [0]
  decompress b := (b.drop 2).dropLast
  output_prefix chunks c := by
    by_cases h : chunks = []
    · rw [if_pos h]
      exact List.nil_prefix
    · rw [if_neg h, if_neg (by simp), List.flatten_append, ← List.append_assoc]
      exact List.prefix_append _ _
  decompress_close chunks := by
    by_cases h : chunks = []
    · simp [h]
    · rw [if_neg h, if_neg h, List.append_assoc]
      exact List.dropLast_concat

/-- The hooks of the game and `CreateCallbacks`, and a frame that reaches the file. -/
def oneRecording : List (Action (Bool × Bool)) :=
  [.createHook "on_frame_update" 0x55de4f, .createHook "on_gameloop_exit" 0x72dfb0,
    .createHook "on_progress_update" 0x643c62, .createHook "cb_debug_print" 0x4068e0,
    .createCallbacks, .serializeState 2 (true, false), .flush 2 5]

theorem oneRecording_kept :
    ∃ s, run (step storedStream flagsMessage false) State.init oneRecording = some s ∧
      (Always (step storedStream flagsMessage false) (Kept storedStream flagsMessage false) State.init
          oneRecording ↔
        oneRecording.countP Action.isCreateCallbacks ≤ 1) := by
  have hrun : (run (step storedStream flagsMessage false) State.init oneRecording).isSome := by decide
  obtain ⟨s, hs⟩ := Option.isSome_iff_exists.mp hrun
  exact ⟨s, hs, always_kept_iff storedStream flagsMessage false hs⟩

/-- The second `CreateCallbacks` empties the file, and the stream goes on behind the gap. -/
theorem second_command_truncates :
    ∃ s, run (step storedStream flagsMessage false) State.init (oneRecording ++ [.createCallbacks]) =
        some s ∧
      s.opened = 2 ∧ s.recorded = [(true, false)] ∧
      closedFile storedStream s 2 = [0x1f, 0x8b, 0, 0, 0, 0] ∧
      ¬Kept storedStream flagsMessage false s := by
  refine ⟨_, rfl, rfl, rfl, by decide, ?_⟩
  intro h
  have hopened := (h (by decide)).1
  revert hopened
  decide

end Ra2yrcpp.Hook.Recording
