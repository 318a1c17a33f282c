import Mathlib.Logic.Equiv.List
import Mathlib.Tactic.DeriveEncodable
import Ra2yrcpp.Protocol.MessageStream
import Ra2yrcpp.Snapshot.Runs
import Ra2yrcpp.WorkerUtil

/-!
# The record file

`CBSaveState` with its `worker_util`: the game thread pushes the snapshot of each frame, and the
thread of `work` writes it to the record stream.  At the end of the game loop the callback is
destroyed, and with it the stream.
-/

open Ra2yrcpp.Reasoning

namespace Ra2yrcpp.Snapshot

open StateParser
open Protocol (MessageType MessageOstream MessageIstream Gzip Bytes frame frames intMax)
open WorkerUtil (WorkItem Worker Flow Phase AllWork)

/-! ## The callback and its worker -/

/-- The items of `work` are shared pointers to snapshots; there is one consumer function. -/
abbrev Work := WorkerUtil.State (Option GameState) Unit

structure Recorder (κ : Type) where
  game : Run κ
  work : Work
  out : MessageOstream

variable {κ : Type}

def Recorder.init (out : MessageOstream) : Recorder κ :=
  ⟨.init, .init (Option GameState) () 10, out⟩

/-- `CBSaveState::serialize_state`: what it throws, and the stream that is left. -/
def serializeState (T : MessageType GameState) (out : MessageOstream) (G : GameState) :
    Except String Unit × MessageOstream :=
  if out.os.isNone then (.ok (), out)
  else
    let r := out.write T G
    (if r.1 then .ok () else .error "write_message", r.2)

inductive Event (κ : Type)
  /-- a callback on the game thread -/
  | game (a : Action κ)
  /-- a step inside of `work`, of either thread -/
  | work (a : WorkerUtil.Action (Option GameState) Unit)

/-- The game thread is neither in a blocked `push` nor in the destructor of `work`. -/
def Recorder.idle (s : Recorder κ) : Prop :=
  s.work.monitor.asleep = [] ∧ s.work.monitor.awake = [] ∧ s.work.stage ≠ .destroying

instance (s : Recorder κ) : Decidable s.idle := instDecidableAnd

section Step

variable (oneof : Bool) (r : Rules) (M : MapClass κ) (n : Nat) (T : MessageType GameState)

/-- What the callbacks do to `work`: the snapshot of the frame is pushed, and the first
`gameloop_exit` destroys the callback. -/
def Recorder.pushOrDestroy (s : Recorder κ) (game : Run κ) : Option Work :=
  match game.snapshots[s.game.snapshots.length]? with
  | some G => WorkerUtil.step s.work (.push (some G) none)
  | none =>
    if game.exited ∧ ¬s.game.exited then WorkerUtil.step s.work .destroy else some s.work

def Recorder.step (s : Recorder κ) : Event κ → Option (Recorder κ)
  | .game a =>
    if s.idle then do
      let game ← Snapshot.step oneof r M n s.game a
      let work ← s.pushOrDestroy game
      return { s with game := game, work := work }
    else none
  | .work (.push _ _) | .work .destroy => none
  | .work (.consumed _) =>
    match s.work.worker with
    | .consuming w => do
      let G ← w.item
      let (outcome, out) := serializeState T s.out G
      let work ← WorkerUtil.step s.work (.consumed outcome)
      return { s with work := work, out := out }
    | _ => none
  | .work a => (WorkerUtil.step s.work a).map fun work => { s with work := work }

/-! ## What the steps do -/

/-- The steps inside of `work` that write nothing. -/
def Silent : WorkerUtil.Action (Option GameState) Unit → Prop
  | .push _ _ | .destroy | .consumed _ => False
  | _ => True

inductive Recorder.Effect (s : Recorder κ) : Event κ → Recorder κ → Prop
  | push (a : Action κ) (game : Run κ) (work : Work) (G : GameState) (hidle : s.idle)
      (hgame : Snapshot.step oneof r M n s.game a = some game)
      (hsnapshots : game.snapshots = s.game.snapshots ++ [G])
      (hwork : WorkerUtil.step s.work (.push (some G) none) = some work) :
      Effect s (.game a) ⟨game, work, s.out⟩
  | destroy (a : Action κ) (game : Run κ) (work : Work) (hidle : s.idle)
      (hgame : Snapshot.step oneof r M n s.game a = some game)
      (hsnapshots : game.snapshots = s.game.snapshots)
      (hwork : WorkerUtil.step s.work .destroy = some work) :
      Effect s (.game a) ⟨game, work, s.out⟩
  | silentGame (a : Action κ) (game : Run κ)
      (hgame : Snapshot.step oneof r M n s.game a = some game)
      (hsnapshots : game.snapshots = s.game.snapshots) :
      Effect s (.game a) ⟨game, s.work, s.out⟩
  | work (a : WorkerUtil.Action (Option GameState) Unit) (work : Work) (ha : Silent a)
      (hwork : WorkerUtil.step s.work a = some work) : Effect s (.work a) ⟨s.game, work, s.out⟩
  | written (outcome outcome' : Except String Unit) (G : GameState)
      (w : WorkItem (Option GameState) Unit) (work : Work)
      (hworker : s.work.worker = .consuming w) (hitem : w.item = some G)
      (hwork : WorkerUtil.step s.work (.consumed outcome') = some work) :
      Effect s (.work (.consumed outcome)) ⟨s.game, work, (serializeState T s.out G).2⟩

variable {oneof r M n T} {s t : Recorder κ} {e : Event κ}

theorem snapshots_step {h h' : Run κ} {a : Action κ}
    (hstep : step oneof r M n h a = some h') :
    h'.snapshots = h.snapshots ∨ ∃ G, h'.snapshots = h.snapshots ++ [G] := by
  cases a with
  | progressUpdate B =>
    unfold step at hstep
    dsimp only at hstep
    split at hstep
    · cases hstep
      exact .inl rfl
    · cases hstep
      exact .inl rfl
  | frame f =>
    unfold step at hstep
    dsimp only at hstep
    split at hstep
    · cases hstep
      exact .inl rfl
    · obtain ⟨⟨s, out⟩, -, rfl⟩ := Option.map_eq_some_iff.mp hstep
      cases out with
      | none => exact .inl rfl
      | some G => exact .inr ⟨G, rfl⟩
  | gameloopExit =>
    obtain rfl := Option.some.inj hstep
    exact .inl rfl

theorem Recorder.step_effect (hstep : s.step oneof r M n T e = some t) :
    Effect oneof r M n T s e t := by
  unfold Recorder.step at hstep
  split at hstep
  · next a =>
    split at hstep
    · next hidle =>
      obtain ⟨game, hgame, hstep⟩ := Option.bind_eq_some_iff.mp hstep
      obtain ⟨work, hwork, hstep⟩ := Option.bind_eq_some_iff.mp hstep
      obtain rfl := Option.some.inj hstep
      unfold pushOrDestroy at hwork
      rcases snapshots_step hgame with hsame | ⟨G, hmore⟩
      · rw [hsame, List.getElem?_eq_none (Nat.le_refl _)] at hwork
        dsimp only at hwork
        split at hwork
        · exact .destroy a game work hidle hgame hsame hwork
        · obtain rfl := Option.some.inj hwork
          exact .silentGame a game hgame hsame
      · rw [hmore, List.getElem?_concat_length] at hwork
        exact .push a game work G hidle hgame hmore hwork
    · cases hstep
  · cases hstep
  · cases hstep
  · next outcome =>
    split at hstep
    · next w hworker =>
      obtain ⟨G, hitem, hstep⟩ := Option.bind_eq_some_iff.mp hstep
      obtain ⟨work, hwork, hstep⟩ := Option.bind_eq_some_iff.mp hstep
      obtain rfl := Option.some.inj hstep
      exact .written outcome _ G w work hworker hitem hwork
    · cases hstep
  · next a hpush hdestroy hconsumed =>
    obtain ⟨work, hwork, rfl⟩ := Option.map_eq_some_iff.mp hstep
    refine .work a work ?_ hwork
    cases a with
    | push item cfn => exact absurd rfl (hpush item cfn)
    | destroy => exact absurd rfl hdestroy
    | consumed outcome => exact absurd rfl (hconsumed outcome)
    | _ => trivial

end Step

/-! ## One producer -/

/-- A snapshot as `work.push` puts it into the queue. -/
def item (G : GameState) : WorkItem (Option GameState) Unit := ⟨false, some G, none⟩

/-- The only producer is the game thread, so that at most one `push` waits, and what was pushed are
the snapshots in their order. -/
structure Single (snapshots : List GameState) (work : Work) : Prop where
  waiting : (work.monitor.asleep ++ work.monitor.awake).length ≤ 1
  accepted : work.accepted = snapshots.map item

variable {snapshots : List GameState} {work work' : Work}
  {a : WorkerUtil.Action (Option GameState) Unit}

theorem perm_eq_of_length {α : Type} {l l' : List α} (hperm : l'.Perm l) (hl : l.length ≤ 1) :
    l' = l := by
  match l, hl with
  | [], _ => exact List.perm_nil.mp hperm
  | [x], _ => exact List.perm_singleton.mp hperm

/-- A producer that has the mutex, with no other one waiting. -/
theorem emplace_alone {s : Work}
    {m : AsyncQueue.Monitor StdQueue (WorkItem (Option GameState) Unit)}
    {w : WorkItem (Option GameState) Unit} (hm : m.queue = s.monitor.queue)
    (hasleep : m.asleep = []) (hawake : m.awake = []) :
    ((s.emplace m w).monitor.asleep ++ (s.emplace m w).monitor.awake).length ≤ 1 ∧
      (s.emplace m w).accepted = s.pushed ++ WorkerUtil.work [w] := by
  cases hfull : s.monitor.queue.full with
  | true =>
    rw [WorkerUtil.emplace_of_full hfull hm]
    constructor
    · show ((m.asleep ++ [w]) ++ m.awake).length ≤ 1
      rw [hasleep, hawake]
      exact Nat.le_refl 1
    · show s.pushed ++ WorkerUtil.work ((m.asleep ++ [w]) ++ m.awake) = _
      rw [hasleep, hawake]
      rfl
  | false =>
    rw [WorkerUtil.emplace_of_not_full hfull hm]
    constructor
    · show ([] ++ (m.awake ++ m.asleep)).length ≤ 1
      rw [hasleep, hawake]
      exact Nat.zero_le 1
    · show (if w.destroy then s.pushed else s.pushed ++ [w]) ++
        WorkerUtil.work ([] ++ (m.awake ++ m.asleep)) = _
      rw [hasleep, hawake]
      cases hw : w.destroy with
      | true => simp [WorkerUtil.work, hw]
      | false => simp [WorkerUtil.work, hw]

theorem accepted_of_idle (hasleep : work.monitor.asleep = []) (hawake : work.monitor.awake = []) :
    work.accepted = work.pushed := by
  unfold WorkerUtil.State.accepted
  rw [hasleep, hawake]
  exact List.append_nil _

theorem Single.push {G : GameState} (h : Single snapshots work) (hasleep : work.monitor.asleep = [])
    (hawake : work.monitor.awake = [])
    (hstep : WorkerUtil.step work (.push (some G) none) = some work') :
    Single (snapshots ++ [G]) work' := by
  cases WorkerUtil.step_effect hstep with
  | push =>
    obtain ⟨hwaiting, haccepted⟩ :=
      emplace_alone (s := work) (m := work.monitor) (w := item G) rfl hasleep hawake
    refine ⟨hwaiting, haccepted.trans ?_⟩
    rw [← accepted_of_idle hasleep hawake, h.accepted, List.map_append]
    rfl

theorem Single.destroy (h : Single snapshots work) (hasleep : work.monitor.asleep = [])
    (hawake : work.monitor.awake = []) (hstep : WorkerUtil.step work .destroy = some work') :
    Single snapshots work' := by
  cases WorkerUtil.step_effect hstep with
  | destroy =>
    obtain ⟨hwaiting, haccepted⟩ := emplace_alone (s := work) (m := work.monitor)
      (w := ⟨true, default, none⟩) rfl hasleep hawake
    refine ⟨hwaiting, haccepted.trans ?_⟩
    rw [← accepted_of_idle hasleep hawake, h.accepted]
    exact List.append_nil _

/-- A step that leaves the pushed items and the one that waits. -/
theorem Single.frame (h : Single snapshots work) (hpushed : work'.pushed = work.pushed)
    (hwaiting : (work'.monitor.asleep ++ work'.monitor.awake).Perm
      (work.monitor.asleep ++ work.monitor.awake)) : Single snapshots work' := by
  have hsame := perm_eq_of_length hwaiting h.waiting
  refine ⟨by rw [hsame]; exact h.waiting, ?_⟩
  rw [← h.accepted]
  unfold WorkerUtil.State.accepted
  rw [hpushed, hsame]

theorem Single.resume {i : Nat} {w : WorkItem (Option GameState) Unit} (h : Single snapshots work)
    (hi : work.monitor.awake[i]? = some w) :
    Single snapshots
      (work.emplace { work.monitor with awake := work.monitor.awake.eraseIdx i } w) := by
  obtain ⟨hlt, hw⟩ := List.getElem?_eq_some_iff.mp hi
  have hlen := h.waiting
  rw [List.length_append] at hlen
  have hasleep : work.monitor.asleep = [] := List.eq_nil_of_length_eq_zero (by omega)
  have hone : work.monitor.awake = [w] := by
    obtain ⟨x, hx⟩ := List.length_eq_one_iff.mp (show work.monitor.awake.length = 1 by omega)
    obtain rfl : i = 0 := by omega
    rw [hx] at hi ⊢
    rw [Option.some.inj hi]
  have herase : work.monitor.awake.eraseIdx i = [] := by
    apply List.eq_nil_of_length_eq_zero
    rw [List.length_eraseIdx_of_lt hlt]
    omega
  obtain ⟨hwaiting, haccepted⟩ := emplace_alone (s := work) (w := w)
    (m := { work.monitor with awake := work.monitor.awake.eraseIdx i }) rfl hasleep herase
  refine ⟨hwaiting, haccepted.trans ?_⟩
  rw [← h.accepted]
  unfold WorkerUtil.State.accepted
  rw [hasleep, hone]
  rfl

theorem Single.silent (h : Single snapshots work) (ha : Silent a ∨ ∃ o, a = .consumed o)
    (hstep : WorkerUtil.step work a = some work') : Single snapshots work' := by
  cases WorkerUtil.step_effect hstep with
  | push | destroy => simp [Silent] at ha
  | resume i w hi => exact h.resume hi
  | wakeUp i m hm => exact h.frame rfl (WorkerUtil.wakeUp_perm hm).2
  | pop =>
    cases hq : work.monitor.queue.q.q with
    | nil =>
      rw [WorkerUtil.pop_of_empty hq]
      exact h.frame rfl (List.Perm.refl _)
    | cons w rest =>
      rw [WorkerUtil.pop_of_cons hq]
      exact h.frame rfl (WorkerUtil.notifyAll_perm work.monitor)
  | timeout => exact h.frame rfl (WorkerUtil.notifyAll_perm work.monitor)
  | join | workerWakeUp | lateTimeout | consume | consumed =>
    exact h.frame rfl (List.Perm.refl _)

/-! ## What is written -/

/-- The item whose consumer has not returned yet. -/
def inHand : Worker (Option GameState) Unit → List (WorkItem (Option GameState) Unit)
  | .consuming w => [w]
  | _ => []

/-- Only `consume` hands an item over. -/
theorem handed_step (ha : ∀ o, a ≠ .consumed o) (hstep : WorkerUtil.step work a = some work') :
    (work'.handed = work.handed ∧ inHand work'.worker = inHand work.worker) ∨
      ∃ w, inHand work.worker = [] ∧ inHand work'.worker = [w] ∧
        work'.handed = work.handed ++ [w.call work.consumerFn] := by
  have hemplace : ∀ m w, (work.emplace m w).handed = work.handed ∧
      inHand (work.emplace m w).worker = inHand work.worker := by
    intro m w
    unfold WorkerUtil.State.emplace
    split
    · exact ⟨rfl, rfl⟩
    · refine ⟨rfl, ?_⟩
      show inHand work.worker.notify = _
      cases work.worker <;> rfl
  cases WorkerUtil.step_effect hstep with
  | push | destroy | resume => exact .inl (hemplace _ _)
  | join | wakeUp => exact .inl ⟨rfl, rfl⟩
  | pop hworker =>
    have hnone : inHand work.worker = [] := by
      rcases hworker with hworker | hworker
      · rw [hworker]
        rfl
      · rw [hworker]
        rfl
    left
    rw [hnone]
    cases hq : work.monitor.queue.q.q with
    | nil =>
      rw [WorkerUtil.pop_of_empty hq]
      exact ⟨rfl, rfl⟩
    | cons w rest =>
      rw [WorkerUtil.pop_of_cons hq]
      cases hw : w.destroy with
      | true => exact ⟨rfl, rfl⟩
      | false => exact ⟨rfl, rfl⟩
  | workerWakeUp hworker | timeout hworker | lateTimeout hworker =>
    rw [hworker]
    exact .inl ⟨rfl, rfl⟩
  | consume w hworker =>
    rw [hworker]
    exact .inr ⟨w, rfl, rfl, rfl⟩
  | consumed o => exact absurd rfl (ha o)

/-- The call of the consumer on a snapshot. -/
def called (G : GameState) : Unit × Option GameState := ((), some G)

theorem serializeState_of_le {T : MessageType GameState} {out : MessageOstream} {os : Bytes}
    {G : GameState} (hos : out.os = some os) (hG : (T.serialize G).length ≤ intMax) :
    (serializeState T out G).2.os = some (os ++ frame T G) := by
  unfold serializeState MessageOstream.write Protocol.writeMessage
  simp [hos, hG, frame]

theorem serializeState_gzip (T : MessageType GameState) (out : MessageOstream) (G : GameState) :
    (serializeState T out G).2.gzip = out.gzip := by
  unfold serializeState MessageOstream.write
  split
  · rfl
  · cases out.os <;> rfl

/-- The snapshots that the consumer has returned from are in the stream. -/
structure Written (T : MessageType GameState) (s : Recorder κ) (k : Nat) : Prop where
  handed : s.work.handed =
    (s.game.snapshots.take k).map called ++ (inHand s.work.worker).map (WorkItem.call ())
  le : k ≤ s.game.snapshots.length
  out : (∀ G ∈ s.game.snapshots, (T.serialize G).length ≤ intMax) →
    s.out.os = some (frames T (s.game.snapshots.take k))

structure Recorder.Inv (T : MessageType GameState) (gzip : Bool) (s : Recorder κ) : Prop where
  flow : Flow () 10 s.work
  single : Single s.game.snapshots s.work
  gzip : s.out.gzip = gzip
  written : ∃ k, Written T s k

theorem Recorder.inv_init (T : MessageType GameState) (gzip : Bool) :
    Recorder.Inv T gzip (Recorder.init (κ := κ) (MessageOstream.create gzip)) where
  flow := WorkerUtil.flow_init
  single := ⟨Nat.zero_le 1, rfl⟩
  gzip := rfl
  written := ⟨0, rfl, Nat.zero_le _, fun _ => rfl⟩

/-- What was handed over comes first in the snapshots. -/
theorem handed_first (hflow : Flow () 10 work) (hsingle : Single snapshots work) :
    work.handed <+: snapshots.map called := by
  have hcalled : snapshots.map called = work.accepted.map (WorkItem.call ()) := by
    rw [hsingle.accepted, List.map_map]
    rfl
  rw [hcalled]
  unfold WorkerUtil.State.accepted
  rw [List.map_append, hflow.order, List.append_assoc]
  exact List.prefix_append _ _

section Inv

variable {oneof : Bool} {r : Rules} {M : MapClass κ} {n : Nat} {T : MessageType GameState}
  {gzip : Bool} {s t : Recorder κ} {e : Event κ} {k : Nat}

/-- A step that hands nothing over, or one that hands over one more item. -/
theorem Written.step {game : Run κ} (h : Written T s k)
    (hsnapshots : s.game.snapshots <+: game.snapshots)
    (hfn : s.work.consumerFn = ())
    (hhanded : (work.handed = s.work.handed ∧ inHand work.worker = inHand s.work.worker) ∨
      ∃ w, inHand s.work.worker = [] ∧ inHand work.worker = [w] ∧
        work.handed = s.work.handed ++ [w.call s.work.consumerFn]) :
    Written T ⟨game, work, s.out⟩ k := by
  obtain ⟨Gs, hGs⟩ := hsnapshots
  have htake : game.snapshots.take k = s.game.snapshots.take k := by
    rw [← hGs, List.take_append_of_le_length h.le]
  refine ⟨?_, ?_, fun hsize => ?_⟩
  · show work.handed = (game.snapshots.take k).map called ++ (inHand work.worker).map _
    rw [htake]
    rcases hhanded with ⟨hsame, hhand⟩ | ⟨w, hnone, hone, hmore⟩
    · rw [hsame, hhand, h.handed]
    · rw [hmore, hone, h.handed, hnone, hfn, List.map_nil, List.append_nil]
      rfl
  · show k ≤ game.snapshots.length
    rw [← hGs, List.length_append]
    exact Nat.le_add_right_of_le h.le
  · show s.out.os = some (frames T (game.snapshots.take k))
    rw [htake]
    apply h.out
    intro G hG
    apply hsize G
    show G ∈ game.snapshots
    rw [← hGs]
    exact List.mem_append_left _ hG

/-- The consumer returns. -/
theorem Written.written {w : WorkItem (Option GameState) Unit} {G : GameState} (h : Written T s k)
    (hfirst : s.work.handed <+: s.game.snapshots.map called)
    (hworker : s.work.worker = .consuming w) (hitem : w.item = some G)
    (hhanded : work.handed = s.work.handed) (hhand : inHand work.worker = []) :
    Written T ⟨s.game, work, (serializeState T s.out G).2⟩ (k + 1) := by
  have hlast : s.work.handed = (s.game.snapshots.take k).map called ++ [called G] := by
    rw [h.handed, hworker]
    show _ ++ [w.call ()] = _
    unfold WorkItem.call
    rw [hitem]
    rfl
  have hlen : ((s.game.snapshots.take k).map called).length = k := by
    rw [List.length_map, List.length_take, Nat.min_eq_left h.le]
  -- the item is the next snapshot
  have hnext : s.game.snapshots[k]? = some G := by
    obtain ⟨rest, hrest⟩ := hfirst
    have hget := congrArg (fun l => l[k]?) hrest
    rw [hlast, List.append_assoc, List.getElem?_append_right (Nat.le_of_eq hlen), hlen,
      Nat.sub_self, List.getElem?_map] at hget
    cases hk : s.game.snapshots[k]? with
    | none =>
      rw [hk] at hget
      cases hget
    | some G' =>
      rw [hk] at hget
      have hsame : called G = called G' := Option.some.inj hget
      rw [Option.some.inj (congrArg Prod.snd hsame)]
  obtain ⟨hlt, -⟩ := List.getElem?_eq_some_iff.mp hnext
  have htake : s.game.snapshots.take (k + 1) = s.game.snapshots.take k ++ [G] := by
    rw [List.take_add_one, hnext]
    rfl
  refine ⟨?_, hlt, fun hsize => ?_⟩
  · show work.handed = (s.game.snapshots.take (k + 1)).map called ++ _
    rw [hhanded, hhand, hlast, htake, List.map_append]
    exact (List.append_nil _).symm
  · have hG : (T.serialize G).length ≤ intMax := hsize G (List.mem_of_getElem? hnext)
    show (serializeState T s.out G).2.os = some (frames T (s.game.snapshots.take (k + 1)))
    rw [serializeState_of_le (h.out hsize) hG, htake]
    unfold frames
    rw [List.flatMap_append, List.flatMap_singleton]

theorem Recorder.Inv.step (h : s.Inv T gzip) (hstep : s.step oneof r M n T e = some t) :
    t.Inv T gzip := by
  obtain ⟨k, hk⟩ := h.written
  cases Recorder.step_effect hstep with
  | push a game work G hidle hgame hsnapshots hwork =>
    refine ⟨WorkerUtil.flow_step h.flow hwork, ?_, h.gzip, k, ?_⟩
    · show Single game.snapshots work
      rw [hsnapshots]
      exact h.single.push hidle.1 hidle.2.1 hwork
    · exact hk.step ⟨[G], hsnapshots.symm⟩ rfl (handed_step (a := .push _ _) nofun hwork)
  | destroy a game work hidle hgame hsnapshots hwork =>
    refine ⟨WorkerUtil.flow_step h.flow hwork, ?_, h.gzip, k, ?_⟩
    · show Single game.snapshots work
      rw [hsnapshots]
      exact h.single.destroy hidle.1 hidle.2.1 hwork
    · exact hk.step ⟨[], by rw [hsnapshots, List.append_nil]⟩ rfl
        (handed_step (a := .destroy) nofun hwork)
  | silentGame a game hgame hsnapshots =>
    refine ⟨h.flow, ?_, h.gzip, k, ?_⟩
    · show Single game.snapshots s.work
      rw [hsnapshots]
      exact h.single
    · exact hk.step ⟨[], by rw [hsnapshots, List.append_nil]⟩ rfl (.inl ⟨rfl, rfl⟩)
  | work a work ha hwork =>
    refine ⟨WorkerUtil.flow_step h.flow hwork, h.single.silent (.inl ha) hwork, h.gzip, k, ?_⟩
    apply hk.step List.prefix_rfl rfl (handed_step ?_ hwork)
    rintro o rfl
    exact ha
  | written outcome outcome' G w work hworker hitem hwork =>
    refine ⟨WorkerUtil.flow_step h.flow hwork, h.single.silent (.inr ⟨_, rfl⟩) hwork, ?_, k + 1, ?_⟩
    · exact (serializeState_gzip T s.out G).trans h.gzip
    · cases WorkerUtil.step_effect hwork with
      | consumed => exact hk.written (handed_first h.flow h.single) hworker hitem rfl rfl

end Inv

/-! ## The file -/

/-- The callbacks among the events. -/
def callbacks : List (Event κ) → List (Action κ)
  | [] => []
  | .game a :: events => a :: callbacks events
  | .work _ :: events => callbacks events

section File

variable {oneof : Bool} {r : Rules} {M : MapClass κ} {n : Nat} {T : MessageType GameState}
  {gzip : Bool} {s t : Recorder κ} {events : List (Event κ)}

/-- Whatever the threads of `work` do, the game thread runs the callbacks one after the other. -/
theorem run_game (hrun : run (Recorder.step oneof r M n T) s events = some t) :
    run (step oneof r M n) s.game (callbacks events) = some t.game := by
  induction events generalizing s with
  | nil =>
    obtain rfl := Option.some.inj hrun
    rfl
  | cons e events ih =>
    obtain ⟨u, hstep, hrun⟩ := run_cons_eq_some.mp hrun
    have hrest := ih hrun
    cases Recorder.step_effect hstep with
    | push a game _ _ _ hgame | destroy a game _ _ hgame | silentGame a game hgame =>
      show run _ s.game (a :: callbacks events) = _
      rw [run_cons, hgame]
      exact hrest
    | work | written => exact hrest

theorem mem_callbacks {a : Action κ} : a ∈ callbacks events ↔ Event.game a ∈ events := by
  induction events with
  | nil => simp [callbacks]
  | cons e events ih =>
    cases e with
    | game b => simp [callbacks, ih]
    | work b => simp [callbacks, ih]

/-- One snapshot with the worker, ten in the queue and one in a blocked `push` are not written
yet. -/
theorem Written.bound {k : Nat} (hwritten : Written T s k) (h : s.Inv T gzip) :
    s.game.snapshots.length ≤ k + 12 := by
  have haccepted := congrArg List.length h.single.accepted
  unfold WorkerUtil.State.accepted at haccepted
  rw [List.length_append, List.length_map] at haccepted
  have horder := congrArg List.length h.flow.order
  rw [List.length_map, List.length_append, List.length_map, List.length_append] at horder
  have hhanded := congrArg List.length hwritten.handed
  rw [List.length_append, List.length_map, List.length_take, Nat.min_eq_left hwritten.le,
    List.length_map] at hhanded
  have hqueue := h.flow.bound (by decide)
  have hwork : (WorkerUtil.work s.work.monitor.queue.q.q).length ≤ 10 :=
    Nat.le_trans (List.length_filter_le _ _) hqueue
  have hwaiting : (WorkerUtil.work (s.work.monitor.asleep ++ s.work.monitor.awake)).length ≤ 1 :=
    Nat.le_trans (List.length_filter_le _ _) h.single.waiting
  have hworker : (inHand s.work.worker).length + s.work.worker.held.length ≤ 1 := by
    cases s.work.worker <;> simp [inHand, Worker.held]
  omega

theorem phase_recorder {e : Event κ} (h : Phase s.work) (he : e ≠ .work .timeout)
    (hstep : s.step oneof r M n T e = some t) : Phase t.work := by
  cases Recorder.step_effect hstep with
  | push _ _ _ _ _ _ _ hwork => exact WorkerUtil.phase_step (a := .push _ _) h nofun hwork
  | destroy _ _ _ _ _ _ hwork => exact WorkerUtil.phase_step (a := .destroy) h nofun hwork
  | silentGame => exact h
  | work a work _ hwork => exact WorkerUtil.phase_step h (fun ha => he (ha ▸ rfl)) hwork
  | written _ _ _ _ _ _ _ hwork => exact WorkerUtil.phase_step (a := .consumed _) h nofun hwork

/-- Once the destructor has returned, nothing is left to write. -/
theorem Written.complete {k : Nat} (hwritten : Written T s k) (h : s.Inv T gzip)
    (hphase : Phase s.work) (hreturned : s.work.stage = .returned) :
    k = s.game.snapshots.length := by
  cases hphase with
  | alive hstage | blocked _ hstage | queued _ _ hstage =>
    rw [hstage] at hreturned
    cases hreturned
  | drained _ hqueue hwaiting hworker =>
    have haccepted := congrArg List.length h.single.accepted
    unfold WorkerUtil.State.accepted at haccepted
    rw [hwaiting, List.length_append, List.length_map] at haccepted
    have horder := congrArg List.length h.flow.order
    rw [hqueue, hworker, List.length_map, List.length_append, List.length_map] at horder
    have hhanded := congrArg List.length hwritten.handed
    rw [hworker, List.length_append, List.length_map, List.length_take,
      Nat.min_eq_left hwritten.le] at hhanded
    simp [WorkerUtil.work, Worker.held, inHand] at haccepted horder hhanded
    omega

theorem Recorder.inv_run
    (hrun : run (Recorder.step oneof r M n T) (Recorder.init (MessageOstream.create gzip)) events =
      some s) : s.Inv T gzip :=
  run_invariant (fun _ _ _ h hstep => h.step hstep) (Recorder.inv_init T gzip) hrun

theorem Recorder.phase_run (htimeout : Event.work .timeout ∉ events) {out : MessageOstream}
    (hrun : run (Recorder.step oneof r M n T) (Recorder.init out) events = some s) :
    Phase s.work :=
  run_invariant_of_conforms (fun _ _ _ h he hstep => phase_recorder h he hstep)
    WorkerUtil.phase_init
    (conforms_of_forall_mem fun _ he _ htime => htimeout (htime ▸ he)) hrun

end File

/-- Whatever the order in which the game thread and the thread of `work` go on, the record stream
has the first snapshots, each behind its length, and at most twelve are missing from it.  None is
missing when the destructor has returned, unless the thread has waited for a snapshot until the
timeout. -/
theorem snapshots_written (oneof : Bool) (r : Rules) (M : MapClass κ) (n : Nat)
    (T : MessageType GameState) (gzip : Bool) (events : List (Event κ)) {s : Recorder κ}
    (hrun : run (Recorder.step oneof r M n T) (Recorder.init (MessageOstream.create gzip)) events =
      some s)
    (hsize : ∀ G ∈ s.game.snapshots, (T.serialize G).length ≤ intMax) :
    (∃ k, s.out.os = some (frames T (s.game.snapshots.take k)) ∧
      s.game.snapshots.length ≤ k + 12) ∧
      (Event.work .timeout ∉ events → s.work.stage = .returned →
        s.out.os = some (frames T s.game.snapshots)) := by
  have hinv := Recorder.inv_run hrun
  obtain ⟨k, hk⟩ := hinv.written
  refine ⟨⟨k, hk.out hsize, hk.bound hinv⟩, fun htimeout hreturned => ?_⟩
  have hall := hk.complete hinv (Recorder.phase_run htimeout hrun) hreturned
  rw [hk.out hsize, hall, List.take_length]

/-! ## Reading it back -/

instance encodableUInt8 : Encodable UInt8 :=
  .ofLeftInverse UInt8.toNat UInt8.ofNat fun _ => UInt8.ofNat_toNat

instance encodableUInt32 : Encodable UInt32 :=
  .ofLeftInverse UInt32.toNat UInt32.ofNat fun _ => UInt32.ofNat_toNat

instance encodableUInt64 : Encodable UInt64 :=
  .ofLeftInverse UInt64.toNat UInt64.ofNat fun _ => UInt64.ofNat_toNat

instance encodableInt32 : Encodable Int32 :=
  .ofLeftInverse Int32.toUInt32 UInt32.toInt32 fun _ => rfl

instance encodableChar : Encodable Char :=
  .ofLeftInverse Char.toNat Char.ofNat fun a => Char.ofNat_toNat a

instance encodableString : Encodable String :=
  .ofLeftInverse String.toList String.ofList fun _ => String.ofList_toList

deriving instance Encodable for
  TargetMessage, ProductionMessage, Coordinates, EventType, AbstractType
deriving instance Encodable for PlaceMessage, MissionFields, Destination
deriving instance Encodable for MegaMissionMessage, MegaMissionFMessage
deriving instance Encodable for EventMessage
deriving instance Encodable for EventListMessages, TypeClassType, ObjectType
deriving instance Encodable for TypeClassMessage, PrerequisiteGroups, HouseMessage, TechnoFields
deriving instance Encodable for ObjectMessage, FactoryMessage, CellMessage, LoadStage
deriving instance Encodable for GameState

/-- An encoding in which the given messages are short. -/
def shortMessages (known : List GameState) : MessageType GameState where
  new := {}
  serialize m :=
    List.replicate (if m ∈ known then known.idxOf m else known.length + Encodable.encode m) 0
  parse b :=
    if b.length < known.length then known[b.length]?
    else Encodable.decode (b.length - known.length)
  parseFailed m _ := m
  parse_serialize m := by
    rw [List.length_replicate]
    by_cases hm : m ∈ known
    · have hlt := List.idxOf_lt_length_of_mem hm
      rw [if_pos hm, if_pos hlt, List.getElem?_eq_getElem hlt, List.getElem_idxOf]
    · rw [if_neg hm, if_neg (by omega), Nat.add_sub_cancel_left, Encodable.encodek]

theorem length_shortMessages {known : List GameState} {m : GameState} (hm : m ∈ known)
    (hknown : known.length ≤ intMax) : ((shortMessages known).serialize m).length ≤ intMax := by
  show (List.replicate _ _).length ≤ intMax
  rw [List.length_replicate, if_pos hm]
  exact Nat.le_trans (Nat.le_of_lt (List.idxOf_lt_length_of_mem hm)) hknown

def threeSnapshots : List GameState :=
  (run (step true plainRules smallMap 2) Run.init threeFrames).elim [] Run.snapshots

/-- The consumer has the first snapshot until the game has ended. -/
def threeFramesEvents : List (Event CellStruct) :=
  [.work .pop] ++ (threeFrames.take 2).map .game ++ [.work .pop, .work .consume] ++
    (threeFrames.drop 2).map .game ++
    [.work (.consumed (.ok ())), .work .pop, .work .consume, .work (.consumed (.ok ())), .work .pop,
      .work .consume, .work (.consumed (.ok ())), .work .pop, .work .join]

theorem callbacks_threeFrames : callbacks threeFramesEvents = threeFrames := rfl

theorem threeFrames_returned :
    ∃ s, run (Recorder.step true plainRules smallMap 2 (shortMessages threeSnapshots))
        (Recorder.init (MessageOstream.create true)) threeFramesEvents = some s ∧
      s.work.stage = .returned ∧
      ∀ m ∈ s.game.snapshots, ((shortMessages threeSnapshots).serialize m).length ≤ intMax := by
  have hstage : (run (Recorder.step true plainRules smallMap 2 (shortMessages threeSnapshots))
      (Recorder.init (MessageOstream.create true)) threeFramesEvents).map
        (fun s => s.work.stage) = some .returned := by
    decide +kernel
  obtain ⟨s, hrun, hreturned⟩ := Option.map_eq_some_iff.mp hstage
  refine ⟨s, hrun, hreturned, fun m hm => length_shortMessages ?_ ?_⟩
  · have hgame := run_game hrun
    rw [callbacks_threeFrames] at hgame
    unfold threeSnapshots
    show m ∈ (run _ (Recorder.init (MessageOstream.create true)).game threeFrames).elim [] _
    rw [hgame]
    exact hm
  · have hlength : threeSnapshots.length = 3 := by decide +kernel
    rw [hlength]
    decide

theorem threeFrames_written :
    ∃ s, run (Recorder.step true plainRules smallMap 2 (shortMessages threeSnapshots))
        (Recorder.init (MessageOstream.create true)) threeFramesEvents = some s ∧
      s.out.os = some (frames (shortMessages threeSnapshots) s.game.snapshots) := by
  obtain ⟨s, hrun, hreturned, hsize⟩ := threeFrames_returned
  have hwritten := snapshots_written true plainRules smallMap 2 _ true threeFramesEvents hrun hsize
  exact ⟨s, hrun, hwritten.2 (by simp [threeFramesEvents, threeFrames]) hreturned⟩

end Ra2yrcpp.Snapshot
