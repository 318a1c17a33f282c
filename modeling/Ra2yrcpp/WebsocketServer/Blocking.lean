import Ra2yrcpp.WebsocketServer.Steps

/-!
# The io thread and an executor waiting for each other

The io thread waits for an executor in `executor->push` while the queue of five is full, and in
`~worker_util` until its thread ends.  An executor waits for the io thread in `service_->post`.  Both
at once is a deadlock: no closure runs while the io thread waits.
-/

open Ra2yrcpp.Reasoning

namespace Ra2yrcpp.WebsocketServer

variable {s t : State} {id : SocketId} {e : ExecId}

/-- The io thread cannot go on before the executor does. -/
def State.blockedOn (s : State) (e : ExecId) : Bool :=
  match s.io with
  | .push id _ :: _ => s.executorOf id == some e && (s.executors e).work.full
  | .pushDestroy e' :: _ => e' == e && (s.executors e).work.full
  | .join e' :: _ => e' == e && (s.executors e).thread != .exited
  | _ => false

/-- The executor waits in `post_` for a closure that the io thread has not finished. -/
def Thread.inPost : Thread → Bool
  | .posted _ done => !done
  | _ => false

def NoCyclicWait (s : State) : Prop :=
  ∀ e, ¬ (s.blockedOn e = true ∧ (s.executors e).thread.inPost = true)

/-! ## Two ways into the deadlock -/

/-- A client closes its connection while its message is answered. -/
def closedWhileAnswering : List Action :=
  [.event (.openConn 1), .io, .io, .event (.message 1 .binary [1]), .io, .io, .take 0,
    .receive 0 (some []), .event (.closeConn 1), .io, .io, .io, .post 0]

/-- A client sends seven messages before the first is answered. -/
def sevenPipelined : List Action :=
  [.event (.openConn 1), .io, .io, .event (.message 1 .binary [1]), .io, .io, .take 0,
    .receive 0 (some [])] ++
  ((List.range 5).map fun i =>
    [.event (.message 1 .binary [UInt8.ofNat i]), .io, .io]).flatten ++
  [.event (.message 1 .binary [7]), .io, .post 0]

theorem cyclic_wait_reached :
    (∃ s, run step State.init closedWhileAnswering = some s ∧ ¬ NoCyclicWait s) ∧
    (∃ s, run step State.init sevenPipelined = some s ∧ ¬ NoCyclicWait s) := by
  constructor
  · refine ⟨(run step State.init closedWhileAnswering).get (by decide), by simp, fun h => ?_⟩
    exact h 0 (by decide)
  · refine ⟨(run step State.init sevenPipelined).get (by decide), by simp, fun h => ?_⟩
    exact h 0 (by decide)

/-! ## Executors that are done -/

/-- The thread is on its way to `post_` or in it. -/
def Thread.busy : Thread → Bool
  | .waiting => false
  | .taken _ => true
  | .received _ _ => true
  | .posted _ done => !done
  | .exited => false

/-- No task of the executor is left that could still call `post_`. -/
def Executor.answered (x : Executor) : Bool :=
  x.thread == .exited || (!x.thread.busy && x.work.q.q.all fun item => !item.isTask)

/-- A message is handed over while there is room in the queue or the executor is idle; a connection
is closed, replaced or interrupted once all its messages are answered. -/
def AnsweredBefore (s : State) : Action → Prop
  | .event (.message id .binary _) =>
    ∀ e ∈ s.executorOf id, (s.executors e).work.full = false ∨ (s.executors e).thread.busy = false
  | .event (.openConn id) => ∀ e ∈ s.executorOf id, (s.executors e).answered = true
  | .event (.closeConn id) => ∀ e ∈ s.executorOf id, (s.executors e).answered = true
  | .runPosted =>
    match s.posted with
    | .interrupt id :: _ => ∀ e ∈ s.executorOf id, (s.executors e).answered = true
    | _ => True
  | _ => True

instance (s : State) : (a : Action) → Decidable (AnsweredBefore s a)
  | .event (.message id .binary _) =>
    inferInstanceAs (Decidable (∀ e ∈ s.executorOf id, _ ∨ _))
  | .event (.openConn id) => inferInstanceAs (Decidable (∀ e ∈ s.executorOf id, _ = true))
  | .event (.closeConn id) => inferInstanceAs (Decidable (∀ e ∈ s.executorOf id, _ = true))
  | .runPosted =>
    match h : s.posted with
    | .interrupt id :: _ =>
      decidable_of_iff (∀ e ∈ s.executorOf id, (s.executors e).answered = true)
        (by simp only [AnsweredBefore, h])
    | .closure _ _ _ :: _ => isTrue (by simp only [AnsweredBefore, h])
    | [] => isTrue (by simp only [AnsweredBefore, h])
  | .event (.message _ .text _) => isTrue trivial
  | .event (.http _ _) => isTrue trivial
  | .io => isTrue trivial
  | .take _ => isTrue trivial
  | .timeout _ => isTrue trivial
  | .receive _ _ => isTrue trivial
  | .post _ => isTrue trivial
  | .resume _ => isTrue trivial

/-- A push to the executor finds room, or is waited for by an idle executor. -/
def Executor.Ready (x : Executor) : Prop := x.work.full = false ∨ x.thread.busy = false

def Executor.Bounded (x : Executor) : Prop := x.work.maxSize = 5 ∧ x.work.q.q.length ≤ 5

structure Unblocked (s : State) : Prop where
  bounded : ∀ e, (s.executors e).Bounded
  push : ∀ id k e, .push id k ∈ s.io → s.executorOf id = some e → (s.executors e).Ready
  doomed : ∀ e, .pushDestroy e ∈ s.io ∨ .join e ∈ s.io → (s.executors e).answered = true
  replaced : ∀ id e, .addConnection id ∈ s.io ∨ .erase id ∈ s.io → s.executorOf id = some e →
    (s.executors e).answered = true

theorem Executor.answered_iff {x : Executor} : x.answered = true ↔
    x.thread = .exited ∨ x.thread.busy = false ∧ ∀ item ∈ x.work.q.q, item.isTask = false := by
  simp [Executor.answered]

theorem Thread.inPost_of_not_busy {th : Thread} (h : th.busy = false) : th.inPost = false := by
  cases th with
  | posted k done => exact h
  | _ => rfl

theorem Executor.inPost_of_answered {x : Executor} (h : x.answered = true) :
    x.thread.inPost = false := by
  rcases Executor.answered_iff.mp h with h | ⟨h, -⟩
  · rw [h]
    rfl
  · exact Thread.inPost_of_not_busy h

theorem Executor.full_iff {x : Executor} (h : x.Bounded) :
    x.work.full = true ↔ 5 ≤ x.work.q.q.length := by
  unfold AsyncQueue.full
  rw [decide_eq_true_iff, h.1]
  change 0 < 5 ∧ 5 < x.work.q.q.length + 1 ↔ _
  omega

theorem Unblocked.noCyclicWait (h : Unblocked s) : NoCyclicWait s := by
  rintro e ⟨hblocked, hpost⟩
  unfold State.blockedOn at hblocked
  split at hblocked
  -- executor->push of a handler
  · rename_i id k rest hio
    simp only [Bool.and_eq_true, beq_iff_eq] at hblocked
    have hready := h.push id k e (by rw [hio]; exact List.mem_cons_self) hblocked.1
    rcases hready with hroom | hidle
    · rw [hroom] at hblocked
      cases hblocked.2
    · rw [Thread.inPost_of_not_busy hidle] at hpost
      cases hpost
  -- the push in ~worker_util
  · rename_i e' rest hio
    simp only [Bool.and_eq_true, beq_iff_eq] at hblocked
    have hdone := h.doomed e (Or.inl (by rw [hio, hblocked.1]; exact List.mem_cons_self))
    rw [Executor.inPost_of_answered hdone] at hpost
    cases hpost
  -- the join in ~worker_util
  · rename_i e' rest hio
    simp only [Bool.and_eq_true, beq_iff_eq] at hblocked
    have hdone := h.doomed e (Or.inr (by rw [hio, hblocked.1]; exact List.mem_cons_self))
    rw [Executor.inPost_of_answered hdone] at hpost
    cases hpost
  · cases hblocked

theorem unblocked_init : Unblocked State.init where
  bounded _ := ⟨rfl, Nat.zero_le _⟩
  push _ _ _ h := by cases h
  doomed _ h := by rcases h with h | h <;> cases h
  replaced _ _ h := by rcases h with h | h <;> cases h

/-! ## Executor threads -/

/-- A move never brings an executor that is ready for a push, or done, out of that state. -/
theorem ExecMove.calm {buffer : SocketId → Payload} {x y : Executor} (hmove : ExecMove buffer x y)
    (hb : x.Bounded) :
    y.Bounded ∧ (x.Ready → y.Ready) ∧ (x.answered = true → y.answered = true) := by
  cases hmove with
  | exit w hthread hq =>
    have hlen : w.length ≤ 5 := by
      have hle := hb.2
      rw [hq, List.length_cons] at hle
      omega
    exact ⟨⟨hb.1, hlen⟩, fun _ => Or.inr rfl, fun _ => rfl⟩
  | take k w hthread hq =>
    have hle := hb.2
    rw [hq, List.length_cons] at hle
    have hb' : ({ x with work := ⟨⟨w⟩, x.work.maxSize⟩, thread := .taken k } : Executor).Bounded :=
      ⟨hb.1, (by omega : w.length ≤ 5)⟩
    refine ⟨hb', fun _ => Or.inl ?_, fun hdone => ?_⟩
    · -- one item left the queue, so there is room whatever the executor goes on to do
      rw [Bool.eq_false_iff]
      intro hfull
      have hge : 5 ≤ w.length := (Executor.full_iff hb').mp hfull
      omega
    -- an executor that is done has no task to take
    · rcases Executor.answered_iff.mp hdone with hexit | ⟨-, hno⟩
      · rw [hthread] at hexit
        cases hexit
      · have hfalse := hno (.consume k) (by rw [hq]; exact List.mem_cons_self)
        cases hfalse
  | timeout hthread hq => exact ⟨hb, fun _ => Or.inr rfl, fun _ => rfl⟩
  | receive k th hthread hth =>
    refine ⟨hb, fun hready => ?_, fun hdone => ?_⟩
    · rcases hready with hroom | hidle
      · exact Or.inl hroom
      · rw [hthread] at hidle
        cases hidle
    · rcases Executor.answered_iff.mp hdone with hexit | ⟨hidle, -⟩
      · rw [hthread] at hexit
        cases hexit
      · rw [hthread] at hidle
        cases hidle
  | post k r hthread =>
    refine ⟨hb, fun hready => ?_, fun hdone => ?_⟩
    · rcases hready with hroom | hidle
      · exact Or.inl hroom
      · rw [hthread] at hidle
        cases hidle
    · rcases Executor.answered_iff.mp hdone with hexit | ⟨hidle, -⟩
      · rw [hthread] at hexit
        cases hexit
      · rw [hthread] at hidle
        cases hidle
  | resume k hthread =>
    -- back to waiting with the queue as it was
    refine ⟨hb, fun _ => Or.inr rfl, fun hdone => ?_⟩
    rcases Executor.answered_iff.mp hdone with hexit | ⟨-, hno⟩
    · rw [hthread] at hexit
      cases hexit
    · exact Executor.answered_iff.mpr (Or.inr ⟨rfl, hno⟩)

theorem Unblocked.moved (h : Unblocked s) (hm : Moved s e t) : Unblocked t := by
  obtain ⟨hbounded, hready, hanswered⟩ := hm.move.calm (h.bounded e)
  refine ⟨fun e' => ?_, fun id k e' hmem hex => ?_, fun e' hmem => ?_, fun id e' hmem hex => ?_⟩
  · by_cases he : e' = e
    · subst he; exact hbounded
    · rw [hm.others e' he]; exact h.bounded e'
  · rw [hm.io] at hmem
    rw [hm.executorOf] at hex
    have hold := h.push id k e' hmem hex
    by_cases he : e' = e
    · subst he; exact hready hold
    · rw [hm.others e' he]; exact hold
  · rw [hm.io] at hmem
    have hold := h.doomed e' hmem
    by_cases he : e' = e
    · subst he; exact hanswered hold
    · rw [hm.others e' he]; exact hold
  · rw [hm.io] at hmem
    rw [hm.executorOf] at hex
    have hold := h.replaced id e' hmem hex
    by_cases he : e' = e
    · subst he; exact hanswered hold
    · rw [hm.others e' he]; exact hold

/-! ## The io thread -/

theorem Unblocked.tail {instr : IoInstr} {rest : List IoInstr} (h : Unblocked s)
    (hio : s.io = instr :: rest) : Unblocked { s with io := rest } := by
  have hmem : ∀ {i : IoInstr}, i ∈ rest → i ∈ s.io := by
    intro i hi
    rw [hio]
    exact List.mem_cons_of_mem _ hi
  exact ⟨h.bounded, fun id k e hk => h.push id k e (hmem hk),
    fun e hk => h.doomed e (hk.imp hmem hmem), fun id e hk => h.replaced id e (hk.imp hmem hmem)⟩

/-- Changing one executor without making it less ready for the pushes that remain. -/
theorem Unblocked.setExecutor (h : Unblocked s) {x : Executor} (hb : x.Bounded)
    (hready : ∀ id k, .push id k ∈ s.io → s.executorOf id = some e → x.Ready)
    (hanswered : (s.executors e).answered = true → x.answered = true) :
    Unblocked (s.setExecutor e x) := by
  have hself : (s.setExecutor e x).executors e = x := Function.update_self ..
  have hother : ∀ e', e' ≠ e → (s.setExecutor e x).executors e' = s.executors e' :=
    fun e' he => Function.update_of_ne he ..
  refine ⟨fun e' => ?_, fun id k e' hmem hex => ?_, fun e' hmem => ?_, fun id e' hmem hex => ?_⟩
  · by_cases he : e' = e
    · rw [he, hself]; exact hb
    · rw [hother e' he]; exact h.bounded e'
  · by_cases he : e' = e
    · rw [he, hself]; exact hready id k hmem (he ▸ hex)
    · rw [hother e' he]; exact h.push id k e' hmem hex
  · by_cases he : e' = e
    · rw [he, hself]; exact hanswered (he ▸ h.doomed e' hmem)
    · rw [hother e' he]; exact h.doomed e' hmem
  · by_cases he : e' = e
    · rw [he, hself]; exact hanswered (he ▸ h.replaced id e' hmem hex)
    · rw [hother e' he]; exact h.replaced id e' hmem hex

/-- An entry leaves the map, or is replaced, once its executor is done. -/
theorem Unblocked.destroy (h : Unblocked s) {o : Option ExecId}
    (hbounded : ∀ e, (t.executors e).Bounded)
    (ho : ∀ e, o = some e → (t.executors e).answered = true)
    (hmap : ∀ id e, t.executorOf id = some e →
      (t.executors e).Ready ∧ (t.executors e).answered = true ∨
        s.executorOf id = some e ∧ t.executors e = s.executors e)
    (hdoomed : ∀ e, .pushDestroy e ∈ s.io ∨ .join e ∈ s.io → t.executors e = s.executors e)
    (hio : t.io = destroyExecutor o ++ s.io) : Unblocked t := by
  have hmem : ∀ {instr : IoInstr}, (∀ e, instr ≠ .pushDestroy e ∧ instr ≠ .join e) →
      instr ∈ t.io → instr ∈ s.io := by
    intro instr hno hi
    rw [hio] at hi
    exact mem_of_mem_destroyExecutor hno hi
  refine ⟨hbounded, fun id k e hk hex => ?_, fun e hk => ?_, fun id e hk hex => ?_⟩
  · rcases hmap id e hex with hnew | ⟨hex', hx⟩
    · exact hnew.1
    · rw [hx]
      exact h.push id k e (hmem (fun e => by simp) hk) hex'
  · rw [hio] at hk
    rcases mem_destroyExecutor hk with hold | hrest
    · exact ho e hold
    · rw [hdoomed e hrest]
      exact h.doomed e hrest
  · rcases hmap id e hex with hnew | ⟨hex', hx⟩
    · exact hnew.2
    · rw [hx]
      exact h.replaced id e (hk.imp (hmem fun e => by simp) (hmem fun e => by simp)) hex'

theorem Unblocked.addConnection (h : Unblocked s) (hw : Wf s) (id : SocketId)
    (hdone : ∀ e, s.executorOf id = some e → (s.executors e).answered = true) :
    Unblocked (addConnection s id) := by
  have hnew : (WebsocketServer.addConnection s id).executors s.nextExec = Executor.make id :=
    Function.update_self ..
  have hold : ∀ e, e < s.nextExec →
      (WebsocketServer.addConnection s id).executors e = s.executors e :=
    fun e he => Function.update_of_ne (Nat.ne_of_lt he) ..
  apply h.destroy (o := s.executorOf id)
  · intro e
    by_cases he : e = s.nextExec
    · rw [he, hnew]
      exact ⟨rfl, Nat.zero_le _⟩
    · change (Function.update s.executors s.nextExec _ e).Bounded
      rw [Function.update_of_ne he]
      exact h.bounded e
  · intro e hex
    rw [hold e (hw.fresh id e hex)]
    exact hdone e hex
  · intro i e hex
    rw [executorOf_addConnection] at hex
    split at hex
    · left
      rw [← Option.some.inj hex, hnew]
      exact ⟨Or.inr rfl, rfl⟩
    · exact Or.inr ⟨hex, hold e (hw.fresh i e hex)⟩
  · exact fun e hmem => hold e (hw.doomed e hmem).1
  · rfl

theorem Unblocked.erase (h : Unblocked s) (id : SocketId)
    (hdone : ∀ e, s.executorOf id = some e → (s.executors e).answered = true) :
    Unblocked (erase s id) := by
  apply h.destroy (o := s.executorOf id)
  · exact h.bounded
  · exact hdone
  · intro i e hex
    rw [executorOf_erase] at hex
    split at hex
    · cases hex
    · exact Or.inr ⟨hex, rfl⟩
  · exact fun _ _ => rfl
  · rfl

theorem Executor.bounded_push {x : Executor} (hb : x.Bounded) (hroom : x.work.full = false)
    (item : WorkItem) :
    ({ x with work := ⟨⟨x.work.q.q ++ [item]⟩, x.work.maxSize⟩ } : Executor).Bounded := by
  have hlt : ¬ 5 ≤ x.work.q.q.length := by
    rw [← Executor.full_iff hb, hroom]
    exact Bool.false_ne_true
  refine ⟨hb.1, ?_⟩
  change (x.work.q.q ++ [item]).length ≤ 5
  rw [List.length_append, List.length_singleton]
  omega

theorem Unblocked.ioExec (h : Unblocked s) (hw : Wf s) {instr : IoInstr} {rest : List IoInstr}
    (hio : s.io = instr :: rest) (hexec : ioExec { s with io := rest } instr = some t) :
    Unblocked t := by
  have hshape : Shaped (instr :: rest) := hio ▸ hw.shape
  have htail := h.tail hio
  have hhead : instr ∈ s.io := by rw [hio]; exact List.mem_cons_self
  cases instr with
  | addConnection id =>
    exact Option.some.inj hexec ▸ htail.addConnection (hw.tail hio) id
      fun e hex => h.replaced id e (Or.inl hhead) hex
  | accept id => exact Option.some.inj hexec ▸ htail
  | close id => exact Option.some.inj hexec ▸ htail
  | storeBuffer id p =>
    obtain rfl := Option.some.inj hexec
    have hmap := executorOf_storeBuffer { s with io := rest } id p
    cases hex : s.executorOf id with
    | none =>
      obtain ⟨entry, heq⟩ := storeBuffer_of_none (s := { s with io := rest }) hex p
      rw [heq] at hmap ⊢
      exact ⟨htail.bounded, fun i k e hk he => htail.push i k e hk (hmap i ▸ he), htail.doomed,
        fun i e hk he => htail.replaced i e hk (hmap i ▸ he)⟩
    | some e =>
      rw [storeBuffer_eq (s := { s with io := rest }) hex] at hmap ⊢
      -- neither the queue nor the thread of the executor changes
      have hset := htail.setExecutor (e := e)
        (x := { s.executors e with delivered := (s.executors e).delivered ++ [p] })
        (h.bounded e) (fun i k hk he => htail.push i k e hk he) (fun hdone => hdone)
      exact ⟨hset.bounded, fun i k e hk he => hset.push i k e hk (hmap i ▸ he), hset.doomed,
        fun i e hk he => hset.replaced i e hk (hmap i ▸ he)⟩
  | push id k =>
    obtain ⟨e, hex, hpush⟩ := Option.bind_eq_some_iff.mp hexec
    obtain ⟨hroom, rfl⟩ := pushItem_eq_some hpush
    -- the push is the last instruction of its handler, so nothing is left to wait for
    obtain ⟨rfl, -⟩ := hshape.push
    have hnil : ∀ i : IoInstr, i ∉ [] := fun i => List.not_mem_nil
    refine ⟨fun e' => ?_, fun i k' e' hk => absurd hk (hnil _), fun e' hk => ?_, fun i e' hk => ?_⟩
    · change (Function.update s.executors e _ e').Bounded
      by_cases he : e' = e
      · rw [he, Function.update_self]
        exact Executor.bounded_push (h.bounded e) hroom _
      · rw [Function.update_of_ne he]
        exact h.bounded e'
    · rcases hk with hk | hk <;> exact absurd hk (hnil _)
    · rcases hk with hk | hk <;> exact absurd hk (hnil _)
  | erase id =>
    exact Option.some.inj hexec ▸ htail.erase id fun e hex => h.replaced id e (Or.inr hhead) hex
  | pushDestroy e =>
    obtain ⟨hroom, rfl⟩ := pushItem_eq_some hexec
    apply htail.setExecutor
    · exact Executor.bounded_push (h.bounded e) hroom _
    -- no connection leads to the executor any more
    · intro i k hk hex
      exact absurd hex ((hw.doomed e (Or.inl hhead)).2 i)
    · intro hdone
      rcases Executor.answered_iff.mp hdone with hexit | ⟨hidle, hno⟩
      · exact Executor.answered_iff.mpr (Or.inl hexit)
      · refine Executor.answered_iff.mpr (Or.inr ⟨hidle, fun item hitem => ?_⟩)
        rcases List.mem_append.mp hitem with hitem | hitem
        · exact hno item hitem
        · rw [List.mem_singleton.mp hitem]
          rfl
  | join e =>
    simp only [WebsocketServer.ioExec] at hexec
    split at hexec
    · exact Option.some.inj hexec ▸ htail
    · cases hexec
  | send resp => exact Option.some.inj hexec ▸ htail
  | interrupt id =>
    obtain rfl := Option.some.inj hexec
    exact ⟨htail.bounded, htail.push, htail.doomed, htail.replaced⟩
  | setDone e =>
    obtain rfl := Option.some.inj hexec
    unfold setDone
    split
    -- the executor is woken up and not on its way to `post_`
    · rename_i k d hthread
      apply htail.setExecutor
      · exact h.bounded e
      · exact fun _ _ _ _ => Or.inr rfl
      · intro hdone
        rcases Executor.answered_iff.mp hdone with hexit | ⟨-, hno⟩
        · rw [hthread] at hexit
          cases hexit
        · exact Executor.answered_iff.mpr (Or.inr ⟨rfl, hno⟩)
    · exact htail

/-! ## Runs -/

/-- What a handler that starts can block on. -/
theorem Unblocked.start (h : Unblocked s) {prog : List IoInstr} {posted : List Posted}
    (hno : ∀ e, .pushDestroy e ∉ prog ∧ .join e ∉ prog)
    (hpush : ∀ id k e, .push id k ∈ prog → s.executorOf id = some e → (s.executors e).Ready)
    (hreplaced : ∀ id e, .addConnection id ∈ prog ∨ .erase id ∈ prog →
      s.executorOf id = some e → (s.executors e).answered = true) :
    Unblocked { s with io := prog, posted := posted } := by
  refine ⟨h.bounded, hpush, fun e hk => ?_, hreplaced⟩
  rcases hk with hk | hk
  · exact absurd hk (hno e).1
  · exact absurd hk (hno e).2

theorem not_executorOf_of_not_mem (h : id ∉ s.wsConns) : s.executorOf id = none := by
  unfold State.executorOf
  rw [AList.lookup_eq_none.mpr h]
  rfl

theorem unblocked_handler {ev : Event} (h : Unblocked s) (hok : AnsweredBefore s (.event ev)) :
    Unblocked { s with io := handler s ev } := by
  apply h.start (handler_no_destroy s ev)
  · intro id k e hk hex
    cases ev with
    | message i op payload =>
      cases op with
      | text => cases hk
      | binary =>
        simp only [handler, messageHandler, sendResponse, List.mem_cons, List.not_mem_nil,
          reduceCtorEq, IoInstr.push.injEq, false_or, or_false] at hk
        obtain ⟨rfl, -⟩ := hk
        exact hok e hex
    | openConn i => simp [handler, openHandler] at hk
    | closeConn i => simp [handler, closeHandler] at hk
    | http i body =>
      simp only [handler, httpHandler] at hk
      split at hk
      · cases hk
      -- the connection is new, so there is no executor to wait for
      · rename_i hnot
        simp only [List.mem_cons, List.not_mem_nil, reduceCtorEq, IoInstr.push.injEq, false_or,
          or_false] at hk
        rw [hk.1, not_executorOf_of_not_mem hnot] at hex
        cases hex
  · intro id e hk hex
    cases ev with
    | message i op payload => cases op <;> simp [handler, messageHandler, sendResponse] at hk
    | openConn i =>
      simp only [handler, openHandler, List.mem_cons, List.not_mem_nil, reduceCtorEq,
        IoInstr.addConnection.injEq, or_false] at hk
      subst hk
      exact hok e hex
    | closeConn i =>
      simp only [handler, closeHandler, List.mem_cons, List.not_mem_nil, reduceCtorEq,
        IoInstr.erase.injEq, false_or, or_false] at hk
      subst hk
      exact hok e hex
    | http i body =>
      simp only [handler, httpHandler] at hk
      split at hk
      · rcases hk with hk | hk <;> cases hk
      -- nothing is replaced
      · rename_i hnot
        simp only [List.mem_cons, List.not_mem_nil, reduceCtorEq, IoInstr.addConnection.injEq,
          or_false] at hk
        rw [hk, not_executorOf_of_not_mem hnot] at hex
        cases hex

theorem unblocked_postedHandler {p : Posted} {rest : List Posted} (h : Unblocked s)
    (hposted : s.posted = p :: rest) (hok : AnsweredBefore s .runPosted) :
    Unblocked { s with io := postedHandler p, posted := rest } := by
  simp only [AnsweredBefore, hposted] at hok
  cases p with
  | closure e k resp =>
    apply h.start (postedHandler_no_destroy (.closure e k resp))
    · intro id k' e' hk
      exact absurd hk ((postedHandler_no_push _ id).2 k')
    · intro id e' hk
      cases k <;> simp [postedHandler] at hk
  | interrupt i =>
    apply h.start (postedHandler_no_destroy (.interrupt i))
    · intro id k' e' hk
      exact absurd hk ((postedHandler_no_push _ id).2 k')
    · intro id e' hk hex
      simp only [postedHandler, interruptHandler, List.mem_cons, List.not_mem_nil, reduceCtorEq,
        IoInstr.erase.injEq, false_or, or_false] at hk
      subst hk
      exact hok e' hex

theorem unblocked_step {a : Action} (hinv : Wf s ∧ Unblocked s) (hok : AnsweredBefore s a)
    (h : step s a = some t) : Wf t ∧ Unblocked t := by
  obtain ⟨hw, hu⟩ := hinv
  refine ⟨wf_step hw h, ?_⟩
  rcases step_cases h with ⟨ev, rfl, -, -, rfl⟩ | ⟨p, rest, rfl, -, hposted, rfl⟩ |
    ⟨instr, rest, -, hio, hexec⟩ | ⟨e, hm, -⟩
  · exact unblocked_handler hu hok
  · exact unblocked_postedHandler hu hposted hok
  · exact hu.ioExec hw hio hexec
  · exact hu.moved hm

/-- In every run in which messages wait for room and connections end after their last answer, the io
thread and an executor never wait for each other. -/
theorem no_cyclic_wait {acts : List Action}
    (hok : Conforms step AnsweredBefore State.init acts)
    (hrun : run step State.init acts = some s) : NoCyclicWait s := by
  have hinv : Wf s ∧ Unblocked s :=
    run_invariant_of_conforms (fun _ _ _ => unblocked_step) ⟨wf_init, unblocked_init⟩ hok hrun
  exact hinv.2.noCyclicWait

/-- One message, its answer, and then the close: the io thread waits in the join while the executor
takes the destroy item. -/
def closedAfterAnswer : List Action :=
  [.event (.openConn 1), .io, .io, .event (.message 1 .binary [1]), .io, .io, .take 0,
    .receive 0 (some []), .post 0, .runPosted, .io, .io, .event (.closeConn 1), .io, .io, .io]

theorem closedAfterAnswer_noCyclicWait :
    ∃ s, run step State.init closedAfterAnswer = some s ∧ s.blockedOn 0 = true ∧
      NoCyclicWait s := by
  refine ⟨(run step State.init closedAfterAnswer).get (by decide), by simp, by decide, ?_⟩
  exact no_cyclic_wait (by decide : Conforms step AnsweredBefore State.init closedAfterAnswer)
    (by simp)

end Ra2yrcpp.WebsocketServer
