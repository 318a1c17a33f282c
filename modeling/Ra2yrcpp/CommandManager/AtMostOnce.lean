import Ra2yrcpp.CommandManager.Ledger

/-!
# Results are delivered at most once

Task ids come from a 32-bit counter, so as long as it does not wrap they tell the commands of
`handle_cmd` apart.  With the ledger this bounds what all flushes together can return.
-/

open Ra2yrcpp.Reasoning

namespace Ra2yrcpp.CommandManager

variable {handlers : String → Option Handler} {s t : State} {a : Action} {p : CommandPtr}

/-- A command that `handle_cmd` made. -/
def State.isUser (s : State) (p : CommandPtr) : Prop :=
  p < s.nextPtr ∧ (s.cmds p).base.type = .user

/-- The ids of the commands made so far, while the counter has not wrapped. -/
structure Numbered (s : State) : Prop where
  positive : ∀ p, s.isUser p → 0 < (s.cmds p).base.taskId
  bounded : ∀ p, s.isUser p → (s.cmds p).base.taskId ≤ s.created
  inj : ∀ p q, s.isUser p → s.isUser q →
    (s.cmds p).base.taskId = (s.cmds q).base.taskId → p = q
  nodup : s.acks.Nodup
  assigned : ∀ id ∈ s.acks, ∃ p, s.isUser p ∧ (s.cmds p).base.taskId = id
  acked : ∀ p, s.isUser p → ((s.cmds p).base.taskId ∈ s.acks ↔ p ∉ s.made)

structure Counted (s : State) : Prop where
  counter : s.commandCounter = s.created % 2 ^ 32
  numbered : s.created < 2 ^ 32 → Numbered s

theorem counted_init : Counted State.init where
  counter := rfl
  numbered _ :=
    { positive := fun p h => absurd h.1 (Nat.not_lt_zero p)
      bounded := fun p h => absurd h.1 (Nat.not_lt_zero p)
      inj := fun p _ h => absurd h.1 (Nat.not_lt_zero p)
      nodup := List.nodup_nil
      assigned := fun _ h => by cases h
      acked := fun p h => absurd h.1 (Nat.not_lt_zero p) }

theorem isUser_congr (hnext : t.nextPtr = s.nextPtr) (hbase : ∀ p, (t.cmds p).base = (s.cmds p).base)
    (p : CommandPtr) : t.isUser p ↔ s.isUser p := by
  unfold State.isUser
  rw [hnext, hbase]

/-- Steps that make and enqueue nothing. -/
theorem Numbered.congr (h : Numbered s) (hnext : t.nextPtr = s.nextPtr)
    (hbase : ∀ p, (t.cmds p).base = (s.cmds p).base) (hcreated : s.created ≤ t.created)
    (hacks : t.acks = s.acks) (hmade : ∀ p, s.isUser p → (p ∈ t.made ↔ p ∈ s.made)) :
    Numbered t where
  positive p hp := by
    rw [isUser_congr hnext hbase] at hp
    rw [hbase]
    exact h.positive p hp
  bounded p hp := by
    rw [isUser_congr hnext hbase] at hp
    rw [hbase]
    exact Nat.le_trans (h.bounded p hp) hcreated
  inj p q hp hq := by
    rw [isUser_congr hnext hbase] at hp hq
    rw [hbase, hbase]
    exact h.inj p q hp hq
  nodup := by rw [hacks]; exact h.nodup
  assigned id hid := by
    rw [hacks] at hid
    obtain ⟨p, hp, heq⟩ := h.assigned id hid
    exact ⟨p, (isUser_congr hnext hbase p).mpr hp, by rw [hbase]; exact heq⟩
  acked p hp := by
    rw [isUser_congr hnext hbase] at hp
    rw [hbase, hacks, hmade p hp]
    exact h.acked p hp

/-- A new command, whose id is new if it is one of `handle_cmd`. -/
theorem Numbered.make (h : Numbered s) (c : Command)
    (hc : c.base.type = .user → c.base.taskId = s.created + 1) :
    Numbered { s with
      cmds := Function.update s.cmds s.nextPtr c
      nextPtr := s.nextPtr + 1
      made := s.made ++ [s.nextPtr]
      created := s.created + 1 } := by
  have hnew : Function.update s.cmds s.nextPtr c s.nextPtr = c := Function.update_self ..
  have hold : ∀ p, p ≠ s.nextPtr → Function.update s.cmds s.nextPtr c p = s.cmds p :=
    fun p hp => Function.update_of_ne hp ..
  -- every command of the new state is the new one or one of the old ones
  have hcases : ∀ p, p < s.nextPtr + 1 → (Function.update s.cmds s.nextPtr c p).base.type = .user →
      (p = s.nextPtr ∧ c.base.taskId = s.created + 1) ∨ (p ≠ s.nextPtr ∧ s.isUser p) := by
    intro p hlt hty
    by_cases hp : p = s.nextPtr
    · rw [hp, hnew] at hty
      exact Or.inl ⟨hp, hc hty⟩
    · rw [hold p hp] at hty
      exact Or.inr ⟨hp, Nat.lt_of_le_of_ne (Nat.le_of_lt_succ hlt) hp, hty⟩
  refine ⟨fun p hp => ?_, fun p hp => ?_, fun p q hp hq heq => ?_, h.nodup, fun id hid => ?_,
    fun p hp => ?_⟩
  -- ids are positive
  · rcases hcases p hp.1 hp.2 with ⟨rfl, hid⟩ | ⟨hne, hu⟩
    · dsimp only
      rw [hnew, hid]
      exact Nat.succ_pos _
    · dsimp only
      rw [hold p hne]
      exact h.positive p hu
  · rcases hcases p hp.1 hp.2 with ⟨rfl, hid⟩ | ⟨hne, hu⟩
    · dsimp only
      rw [hnew, hid]
    · dsimp only
      rw [hold p hne]
      exact Nat.le_succ_of_le (h.bounded p hu)
  -- the new id is larger than every old one, so it differs from them all
  · dsimp only at heq
    rcases hcases p hp.1 hp.2 with ⟨rfl, hid⟩ | ⟨hne, hu⟩
    · rcases hcases q hq.1 hq.2 with ⟨rfl, -⟩ | ⟨hne', hu'⟩
      · rfl
      · have hle := h.bounded q hu'
        rw [hnew, hold q hne', hid] at heq
        exact absurd (heq ▸ hle) (Nat.not_succ_le_self _)
    · rcases hcases q hq.1 hq.2 with ⟨rfl, hid'⟩ | ⟨hne', hu'⟩
      · have hle := h.bounded p hu
        rw [hnew, hold p hne, hid'] at heq
        exact absurd (heq ▸ hle) (Nat.not_succ_le_self _)
      · rw [hold p hne, hold q hne'] at heq
        exact h.inj p q hu hu' heq
  -- what was acked before is the id of an old command
  · obtain ⟨p, hu, heq⟩ := h.assigned id hid
    have hne : p ≠ s.nextPtr := Nat.ne_of_lt hu.1
    refine ⟨p, ⟨Nat.lt_succ_of_lt hu.1, ?_⟩, ?_⟩
    · dsimp only
      rw [hold p hne]
      exact hu.2
    · dsimp only
      rw [hold p hne]
      exact heq
  · rcases hcases p hp.1 hp.2 with ⟨rfl, hid⟩ | ⟨hne, hu⟩
    -- the new command is still with its creator, and its id is in no ack
    · dsimp only
      rw [hnew, hid]
      refine ⟨fun hmem => ?_,
        fun hmem => absurd (List.mem_append_right _ (List.mem_singleton_self _)) hmem⟩
      obtain ⟨q, hu, heq⟩ := h.assigned _ hmem
      have hle := h.bounded q hu
      exact absurd (heq ▸ hle) (Nat.not_succ_le_self _)
    · dsimp only
      rw [hold p hne, h.acked p hu, List.mem_append, List.mem_singleton]
      exact ⟨fun hno hmem => hmem.elim hno hne, fun hno hmem => hno (Or.inl hmem)⟩

/-- `handle_cmd` enqueues its command and answers with its id. -/
theorem Numbered.emplace (h : Numbered s) (hw : Wf s) (hmade : p ∈ s.made)
    (hty : (s.cmds p).base.type = .user) :
    Numbered { enqueueCommand s p with acks := s.acks ++ [(s.cmds p).base.taskId] } := by
  have hu : s.isUser p := ⟨hw.lt_of_copies (copies_pos_of_made hmade), hty⟩
  have hnot : (s.cmds p).base.taskId ∉ s.acks := fun hmem => (h.acked p hu).mp hmem hmade
  -- the command was in the hands of its creator once only
  have hgone : p ∉ s.made.erase p := by
    intro hmem
    have hone := hw.copies_le p
    have hcount := count_erase_add s.made hmade p
    have hpos := List.count_pos_iff.mpr hmem
    unfold State.copies at hone
    rw [if_pos rfl] at hcount
    omega
  refine ⟨h.positive, h.bounded, h.inj, ?_, fun id hid => ?_, fun q hq => ?_⟩
  · exact List.nodup_append.mpr ⟨h.nodup, List.nodup_singleton _, fun x hx y hy hxy =>
      hnot (List.mem_singleton.mp hy ▸ hxy ▸ hx)⟩
  · rcases List.mem_append.mp hid with hid | hid
    · exact h.assigned id hid
    · exact ⟨p, hu, (List.mem_singleton.mp hid).symm⟩
  · change (s.cmds q).base.taskId ∈ s.acks ++ [(s.cmds p).base.taskId] ↔ q ∉ s.made.erase p
    rw [List.mem_append, List.mem_singleton, h.acked q hq]
    by_cases hqp : q = p
    · subst hqp
      exact ⟨fun _ => hgone, fun _ => Or.inr rfl⟩
    · rw [List.mem_erase_of_ne hqp]
      exact ⟨fun hor => hor.elim id fun heq => absurd (h.inj q p hq hu heq) hqp, Or.inl⟩

/-- The fields that task ids depend on. -/
def State.tasks (s : State) := (s.commandCounter, s.created, s.acks, s.nextPtr, s.made)

theorem Counted.congr (h : Counted s) (htasks : t.tasks = s.tasks)
    (hbase : ∀ p, (t.cmds p).base = (s.cmds p).base) : Counted t := by
  simp only [State.tasks, Prod.mk.injEq] at htasks
  obtain ⟨hcounter, hcreated, hacks, hnext, hmade⟩ := htasks
  refine ⟨by rw [hcounter, hcreated]; exact h.counter, fun hlt => ?_⟩
  rw [hcreated] at hlt
  exact (h.numbered hlt).congr hnext hbase (Nat.le_of_eq hcreated.symm) hacks
    fun p _ => by rw [hmade]

theorem nextCounter_eq (h : Counted s) : nextCounter s = (s.created + 1) % 2 ^ 32 := by
  unfold nextCounter
  rw [h.counter]
  omega

/-- A built-in command leaves its creator: no command of `handle_cmd` moves. -/
theorem Counted.enqueue (h : Counted s) (hty : (s.cmds p).base.type ≠ .user) :
    Counted (enqueueCommand s p) := by
  refine ⟨h.counter, fun hlt => (h.numbered hlt).congr rfl (fun _ => rfl) (Nat.le_refl _) rfl ?_⟩
  intro q hq
  have hne : q ≠ p := by
    rintro rfl
    exact hty hq.2
  exact List.mem_erase_of_ne hne

theorem counted_step (hc : Counted s) (hw : Wf s) (h : Effect handlers s a t) : Counted t := by
  cases h with
  | makeFailed =>
    -- an id is used up without a command
    refine ⟨nextCounter_eq hc, fun hlt => ?_⟩
    have hlt' : s.created < 2 ^ 32 := Nat.lt_of_succ_lt hlt
    exact (hc.numbered hlt').congr rfl (fun _ => rfl) (Nat.le_succ _) rfl fun _ _ => Iff.rfl
  | makeUser name data q discard done h =>
    refine ⟨nextCounter_eq hc, fun hlt => ?_⟩
    have hlt' : s.created < 2 ^ 32 := Nat.lt_of_succ_lt hlt
    have hmake := (hc.numbered hlt').make
      ⟨⟨name, q, nextCounter s, 0, .user⟩, some h, data, .none, false, discard, "", done⟩
      fun _ => (nextCounter_eq hc).trans (Nat.mod_eq_of_lt hlt)
    exact hmake.congr rfl (fun _ => rfl) (Nat.le_refl _) rfl fun _ _ => Iff.rfl
  | makeBuiltin a q size ty io ha hty hio =>
    refine ⟨nextCounter_eq hc, fun hlt => ?_⟩
    have hlt' : s.created < 2 ^ 32 := Nat.lt_of_succ_lt hlt
    have hmake := (hc.numbered hlt').make (Command.make ⟨"", q, 0, size, ty⟩ none [] false)
      fun hu => absurd hu hty
    exact hmake.congr rfl (fun _ => rfl) (Nat.le_refl _) rfl fun _ _ => Iff.rfl
  | emplace p hmade hty hlock =>
    exact ⟨hc.counter, fun hlt => (hc.numbered hlt).emplace hw hmade hty⟩
  | enqueue p waiting hmade hty hio hlock => exact (hc.enqueue hty).congr rfl fun _ => rfl
  | ioEnqueues p hio hlock => exact (hc.enqueue (hw.io p hio).2).congr rfl fun _ => rfl
  | createQueue p hb hty =>
    obtain ⟨_, _, heq⟩ := createQueue_frame s (s.cmds p).base.queueId (s.cmds p).base.queueSize
    rw [heq]
    exact hc.congr rfl fun _ => rfl
  | destroyQueue p hb hty =>
    obtain ⟨_, _, heq⟩ := destroyQueue_frame s (s.cmds p).base.queueId
    rw [heq]
    exact hc.congr rfl fun _ => rfl
  | finishBuiltin p hb =>
    have hsame : (s.cmds p).Same { s.cmds p with resultCode := .ok } := ⟨rfl, rfl, rfl⟩
    exact hc.congr rfl fun q => (same_update hsame q).1
  | userMove a p st st' h c hst hh hmove hposted hassign =>
    exact hc.congr rfl fun q => (same_update hmove.base_eq q).1
  | putWork p m hst => exact hc.congr rfl fun q => (same_update (Command.Same.refl _) q).1
  | recordPending p hst => exact hc.congr rfl fun q => (same_update (Command.Same.refl _) q).1
  | store t p hst hstore =>
    obtain ⟨_, _, rfl⟩ := storeResult_frame hstore
    exact hc.congr rfl fun _ => rfl
  | popResults t id createdAt late hpop =>
    obtain ⟨rq, pc, -, -, rfl⟩ := popResults_cases hw.rings hpop
    exact hc.congr rfl fun _ => rfl
  | handlerPacks p any hgame howned =>
    have hsame : (s.cmds p).Same { s.cmds p with M := any } := ⟨rfl, rfl, rfl⟩
    exact hc.congr rfl fun q => (same_update hsame q).1
  | finishItem p pt c pt' hgame howned hmove =>
    exact hc.congr rfl fun q => (same_update hmove.base_eq q).1
  | _ => exact hc.congr rfl fun _ => rfl

/-! ## Runs -/

/-- The places the life of an enqueued command of `handle_cmd` goes through. -/
def Place.afterEnqueue : Place → Bool
  | .caller => false
  | .executed => false
  | _ => true

theorem mem_places {pl : Place} : pl ∈ s.places p ↔ (p, pl) ∈ s.ledger := by
  unfold State.places
  simp only [List.mem_map, List.mem_filter, beq_iff_eq]
  constructor
  · rintro ⟨⟨q, pl'⟩, ⟨hmem, rfl⟩, rfl⟩
    exact hmem
  · exact fun hmem => ⟨(p, pl), ⟨hmem, rfl⟩, rfl⟩

theorem mem_made_of_place (h : (p, .caller) ∈ s.ledger) : p ∈ s.made := by
  unfold State.ledger at h
  simpa [contents] using h

theorem mem_executed_of_place (h : (p, .executed) ∈ s.ledger) : p ∈ s.executed := by
  unfold State.ledger at h
  simpa [contents] using h

theorem wf_run {acts : List Action} (hrun : run (step handlers) State.init acts = some s) : Wf s :=
  run_invariant (fun _ _ _ hw h => wf_step hw (step_effect h)) wf_init hrun

theorem counted_run {acts : List Action} (hrun : run (step handlers) State.init acts = some s) :
    Counted s := by
  have hstep : ∀ s a t, Wf s ∧ Counted s → step handlers s a = some t → Wf t ∧ Counted t :=
    fun s a t hinv h =>
      ⟨wf_step hinv.1 (step_effect h), counted_step hinv.2 hinv.1 (step_effect h)⟩
  exact (run_invariant hstep ⟨wf_init, counted_init⟩ hrun).2

/-- Every command is in exactly one place. -/
theorem Wf.one_place (hw : Wf s) (hp : p < s.nextPtr) : ∃ pl, s.places p = [pl] := by
  have hlen := length_places s p
  rw [hw.copies, if_pos hp] at hlen
  exact List.length_eq_one_iff.mp hlen

theorem Wf.flushed_nodup (hw : Wf s) : (s.flushed.map Flushed.ptr).Nodup := by
  rw [List.nodup_iff_count_le_one]
  intro p
  have hle := hw.copies_le p
  unfold State.copies at hle
  omega

theorem Wf.isUser_of_flushed (hw : Wf s) {f : Flushed} (hf : f ∈ s.flushed) : s.isUser f.ptr :=
  ⟨hw.lt_of_copies (copies_pos_of_flushed hf), (hw.flushed f hf).1⟩

/-- The commands that were flushed are distinct, and so are their ids if ids tell commands apart. -/
theorem Wf.flushed_ids_nodup (hw : Wf s)
    (hinj : ∀ p q, s.isUser p → s.isUser q →
      (s.cmds p).base.taskId = (s.cmds q).base.taskId → p = q) :
    (s.flushed.map fun f => f.result.commandId).Nodup := by
  have hmap : (s.flushed.map fun f => f.result.commandId) =
      (s.flushed.map Flushed.ptr).map fun p => (s.cmds p).base.taskId := by
    rw [List.map_map]
    exact List.map_congr_left fun f hf => (hw.flushed f hf).2
  rw [hmap]
  apply List.Nodup.map_on _ hw.flushed_nodup
  intro p hp q hq heq
  obtain ⟨f, hf, rfl⟩ := List.mem_map.mp hp
  obtain ⟨g, hg, rfl⟩ := List.mem_map.mp hq
  exact hinj f.ptr g.ptr (hw.isUser_of_flushed hf) (hw.isUser_of_flushed hg) heq

/-- A client connects, sends a command and polls its result. -/
def oneCommand : List Action :=
  connect 1 ++ [.makeCommand "StoreValue" [7] 1 false false, .emplace 1] ++ List.replicate 4 .work ++
    [.fnReturns [8]] ++ List.replicate 6 .work ++ [.lookupQueue 1, .popResults 1 1 []]

end Ra2yrcpp.CommandManager
