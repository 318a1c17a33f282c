import Mathlib.Tactic.Tauto
import Ra2yrcpp.AsyncQueue
import Ra2yrcpp.Reasoning.Transition

/-!
# Requests and responses of a client connection

`InstrumentationClient::send_message` over a `ClientWebsocketConnection`: the request is sent, the
message handler puts what arrives into `in_q_`, and `read_data` takes one message from there or
throws after `cfg::WEBSOCKET_READ_TIMEOUT`.  The server answers every request once and in order, and
the transport keeps the order; when it does so is open.

Requests are numbered in the order in which they are sent.  The number of the request that a message
answers is not in the message: it is only there to say what a response belongs to.
-/

open Ra2yrcpp.Reasoning

namespace Ra2yrcpp.InstrumentationClient

structure Request where
  number : Nat
  data : List UInt8
  deriving DecidableEq, Repr

/-- An item of `in_q_`; `none` is the empty vector that `stop` puts there. -/
structure Item where
  request : Option Nat
  bytes : List UInt8
  deriving DecidableEq, Repr

/-- The thread that calls `send_message` is outside of it, or in `read_data` after request `number`.
`quiet` says that nothing was outstanding when it sent the request. -/
inductive Client
  | idle
  | reading (number : Nat) (quiet : Bool)
  deriving DecidableEq, Repr

/-- A call of `send_message` that has returned. -/
structure Returned (R : Type) where
  number : Nat
  quiet : Bool
  item : Item
  response : R
  deriving DecidableEq, Repr

structure State (R : Type) where
  client : Client
  nextNumber : Nat
  /-- Requests that the server has not answered, and answers that have not arrived. -/
  toServer : List Request
  toClient : List Item
  inQ : AsyncQueue StdQueue Item
  returned : List (Returned R)
  thrown : List String

variable {R : Type}

def State.init : State R where
  client := .idle
  nextNumber := 0
  toServer := []
  toClient := []
  inQ := ⟨⟨[]⟩, 0⟩
  returned := []
  thrown := []

/-- What will be read and has not been yet, in the order in which it will be. -/
def State.outstanding (s : State R) : List (Option Nat) :=
  s.inQ.q.q.map Item.request ++ s.toClient.map Item.request ++
    s.toServer.map fun r => some r.number

/-- `send_message` after `read_data`. -/
def parseResponse (parseFromArray : List UInt8 → Option R) (bytes : List UInt8) : Except String R :=
  if bytes.length = 0 then .error "empty response, likely connection closed"
  else
    match parseFromArray bytes with
    | none => .error ("failed to parse response, size=" ++ toString bytes.length)
    | some response => .ok response

/-- The end of a call of `send_message`. -/
def State.finish (s : State R) (number : Nat) (quiet : Bool) (item : Item) :
    Except String R → State R
  | .ok response =>
    { s with client := .idle, returned := s.returned ++ [⟨number, quiet, item, response⟩] }
  | .error what => { s with client := .idle, thrown := s.thrown ++ [what] }

inductive Action
  | send (data : List UInt8)
  /-- `send` of the websocket library reports an error. -/
  | sendFails (message : String)
  | read
  /-- The wait for an item is over, and `res.at(0)` throws. -/
  | readTimeout (what : String)
  | answer (bytes : List UInt8)
  | deliver
  | stop
  deriving DecidableEq, Repr

def step (parseFromArray : List UInt8 → Option R) (s : State R) : Action → Option (State R)
  | .send data =>
    match s.client with
    | .idle =>
      some { s with
        client := .reading s.nextNumber (decide (s.outstanding = []))
        nextNumber := s.nextNumber + 1
        toServer := s.toServer ++ [⟨s.nextNumber, data⟩] }
    | .reading _ _ => none
  | .sendFails message =>
    match s.client with
    | .idle => some { s with thrown := s.thrown ++ ["failed to send data: " ++ message] }
    | .reading _ _ => none
  | .read =>
    match s.client with
    | .idle => none
    | .reading number quiet =>
      let (res, q) := s.inQ.popRound 1 (fun _ => true) []
      match res.head? with
      | none => none
      | some item =>
        some ({ s with inQ := q }.finish number quiet item
          (parseResponse parseFromArray item.bytes))
  | .readTimeout what =>
    match s.client with
    | .idle => none
    | .reading _ _ =>
      if s.inQ.q.q = [] then
        some { s with
          client := .idle
          thrown := s.thrown ++ ["failed to read data (likely connection closed): " ++ what] }
      else none
  | .answer bytes =>
    match s.toServer with
    | [] => none
    | r :: rest => some { s with
        toServer := rest
        toClient := s.toClient ++ [⟨some r.number, bytes⟩] }
  | .deliver =>
    match s.toClient with
    | [] => none
    | item :: rest => (s.inQ.emplace item).map fun q => { s with toClient := rest, inQ := q }
  | .stop => (s.inQ.emplace ⟨none, []⟩).map fun q => { s with inQ := q }

/-- Every call that has returned has returned the response to its own request. -/
def Paired (s : State R) : Prop := ∀ c ∈ s.returned, c.item.request = some c.number

instance (s : State R) : Decidable (Paired s) :=
  inferInstanceAs (Decidable (∀ c ∈ s.returned, c.item.request = some c.number))

/-! ## A response that comes too late -/

/-- The response to the first request arrives after the read has timed out; the second call takes
it for its own. -/
def lateResponse : List Action :=
  [.send [1], .readTimeout "vector", .answer [11], .deliver, .send [2], .read]

theorem lateResponse_not_paired :
    ∃ s, run (step some) State.init lateResponse = some s ∧ ¬Paired s := by
  refine ⟨(run (step some) State.init lateResponse).get (by decide), by simp, ?_⟩
  decide

/-! ## Which response is read -/

/-- What stands before a response: nothing but empty vectors, or the response to another request. -/
def Precedes (before : List (Option Nat)) (number : Nat) (quiet : Bool) : Prop :=
  if quiet then ∀ x ∈ before, x = none else before ≠ [] ∧ some number ∉ before

def Awaits (l : List (Option Nat)) (number : Nat) (quiet : Bool) : Prop :=
  ∃ before after, l = before ++ some number :: after ∧ Precedes before number quiet

theorem Precedes.insert_none {before before' : List (Option Nat)} {number : Nat} {quiet : Bool}
    (h : Precedes before number quiet) (hmem : ∀ x ∈ before', x ∈ before ∨ x = none)
    (hne : before' ≠ []) : Precedes before' number quiet := by
  cases quiet with
  | true =>
    intro x hx
    rcases hmem x hx with hx | rfl
    · exact h x hx
    · rfl
  | false =>
    refine ⟨hne, fun hx => ?_⟩
    rcases hmem _ hx with hx | hx
    · exact h.2 hx
    · cases hx

/-- An empty vector may come in between at any place. -/
theorem Awaits.insert_none {l₁ l₂ : List (Option Nat)} {number : Nat} {quiet : Bool}
    (h : Awaits (l₁ ++ l₂) number quiet) : Awaits (l₁ ++ none :: l₂) number quiet := by
  obtain ⟨before, after, hl, hbefore⟩ := h
  rcases List.append_eq_append_iff.mp hl with ⟨mid, rfl, hmid⟩ | ⟨mid, rfl, hmid⟩
  · refine ⟨l₁ ++ none :: mid, after, by simp [hmid], hbefore.insert_none ?_ (by simp)⟩
    intro x hx
    simp only [List.mem_append, List.mem_cons] at hx ⊢
    tauto
  · cases mid with
    | nil =>
      rw [List.nil_append] at hmid
      refine ⟨before ++ [none], after, by simp [hmid], hbefore.insert_none ?_ (by simp)⟩
      intro x hx
      exact (List.mem_append.mp hx).imp_right List.mem_singleton.mp
    | cons y mid =>
      obtain ⟨rfl, rfl⟩ := List.cons.inj hmid
      exact ⟨before, mid ++ none :: l₂, by simp, hbefore⟩

/-- The item that a read takes is the awaited one exactly if nothing else was outstanding. -/
theorem Awaits.head {x : Option Nat} {l : List (Option Nat)} {number : Nat} {quiet : Bool}
    (h : Awaits (x :: l) number quiet) (hx : x ≠ none) : x = some number ↔ quiet = true := by
  obtain ⟨before, after, hl, hbefore⟩ := h
  cases before with
  | nil =>
    have hhead : x = some number := (List.cons.inj hl).1
    refine iff_of_true hhead ?_
    by_contra hquiet
    rw [Precedes, if_neg hquiet] at hbefore
    exact hbefore.1 rfl
  | cons y before =>
    obtain rfl : x = y := (List.cons.inj hl).1
    cases quiet with
    | true => exact absurd (hbefore x List.mem_cons_self) hx
    | false =>
      refine iff_of_false ?_ Bool.false_ne_true
      rintro rfl
      exact hbefore.2 List.mem_cons_self

structure Inv (s : State R) : Prop where
  numbers : ∀ k, some k ∈ s.outstanding → k < s.nextNumber
  empty : ∀ item ∈ s.inQ.q.q ++ s.toClient, item.request = none → item.bytes = []
  reading : ∀ number quiet, s.client = .reading number quiet →
    Awaits s.outstanding number quiet
  returned : ∀ c ∈ s.returned, c.item.request = some c.number ↔ c.quiet = true

theorem inv_init : Inv (State.init : State R) where
  numbers _ h := by cases h
  empty _ h := by cases h
  reading _ _ h := by cases h
  returned _ h := by cases h

variable {parseFromArray : List UInt8 → Option R} {s t : State R} {a : Action}

theorem inv_finish (hnumbers : ∀ k, some k ∈ s.outstanding → k < s.nextNumber)
    (hempty : ∀ item ∈ s.inQ.q.q ++ s.toClient, item.request = none → item.bytes = [])
    (hreturned : ∀ c ∈ s.returned, c.item.request = some c.number ↔ c.quiet = true)
    {number : Nat} {quiet : Bool} {item : Item} {o : Except String R}
    (hitem : ∀ response, o = .ok response → (item.request = some number ↔ quiet = true)) :
    Inv (s.finish number quiet item o) := by
  cases o with
  | error what => exact ⟨hnumbers, hempty, nofun, hreturned⟩
  | ok response =>
    refine ⟨hnumbers, hempty, nofun, fun c hc => ?_⟩
    rcases List.mem_append.mp hc with hc | hc
    · exact hreturned c hc
    · obtain rfl := List.mem_singleton.mp hc
      exact hitem response rfl

/-- An empty vector is not a response. -/
theorem ne_nil_of_parseResponse {bytes : List UInt8} {response : R}
    (h : parseResponse parseFromArray bytes = .ok response) : bytes ≠ [] := by
  rintro rfl
  cases h

/-- Messages that move on from one list to the next do so in order. -/
theorem Inv.move (h : Inv s) (hout : t.outstanding = s.outstanding) (hclient : t.client = s.client)
    (hnext : t.nextNumber = s.nextNumber) (hreturned : t.returned = s.returned)
    (hempty : ∀ item ∈ t.inQ.q.q ++ t.toClient, item.request = none → item.bytes = []) : Inv t where
  numbers k hk := by
    rw [hout] at hk
    rw [hnext]
    exact h.numbers k hk
  empty := hempty
  reading number quiet hr := by
    rw [hclient] at hr
    rw [hout]
    exact h.reading number quiet hr
  returned := by
    rw [hreturned]
    exact h.returned

theorem Inv.send (h : Inv s) (data : List UInt8) :
    Inv { s with
      client := .reading s.nextNumber (decide (s.outstanding = []))
      nextNumber := s.nextNumber + 1
      toServer := s.toServer ++ [⟨s.nextNumber, data⟩] } := by
  have hfresh : some s.nextNumber ∉ s.outstanding := fun hmem =>
    Nat.lt_irrefl _ (h.numbers _ hmem)
  have hout : State.outstanding { s with
      client := .reading s.nextNumber (decide (s.outstanding = []))
      nextNumber := s.nextNumber + 1
      toServer := s.toServer ++ [⟨s.nextNumber, data⟩] } =
      s.outstanding ++ [some s.nextNumber] := by
    simp [State.outstanding]
  refine ⟨?_, h.empty, ?_, h.returned⟩
  · intro k hk
    rw [hout, List.mem_append, List.mem_singleton, Option.some.injEq] at hk
    rcases hk with hk | rfl
    · exact Nat.lt_succ_of_lt (h.numbers k hk)
    · exact Nat.lt_succ_self _
  · intro number quiet hclient
    obtain ⟨rfl, rfl⟩ := Client.reading.inj hclient
    refine ⟨s.outstanding, [], hout, ?_⟩
    by_cases hquiet : s.outstanding = []
    · rw [Precedes, if_pos (decide_eq_true hquiet), hquiet]
      exact nofun
    · rw [Precedes, if_neg (by simpa using hquiet)]
      exact ⟨hquiet, hfresh⟩

/-- A read takes the first item of the queue. -/
theorem read_cases (hstep : step parseFromArray s .read = some t) :
    ∃ number quiet item rest, s.client = .reading number quiet ∧ s.inQ.q.q = item :: rest ∧
      t = State.finish { s with inQ := ⟨⟨rest⟩, s.inQ.maxSize⟩ } number quiet item
        (parseResponse parseFromArray item.bytes) := by
  rw [step] at hstep
  split at hstep
  · cases hstep
  · next number quiet hclient =>
    cases hq : s.inQ.q.q with
    | nil =>
      have hpop : s.inQ.popRound 1 (fun _ => true) [] = ([], s.inQ) := by
        rw [show s.inQ = ⟨⟨[]⟩, s.inQ.maxSize⟩ by rw [← hq]]
        rfl
      rw [hpop] at hstep
      cases hstep
    | cons item rest =>
      have hpop : s.inQ.popRound 1 (fun _ => true) [] = ([item], ⟨⟨rest⟩, s.inQ.maxSize⟩) := by
        have h := AsyncQueue.popRound_one_cons item rest s.inQ.maxSize
        rwa [← hq] at h
      rw [hpop] at hstep
      exact ⟨number, quiet, item, rest, hclient, rfl, (Option.some.inj hstep).symm⟩

theorem Inv.read (h : Inv s) (hstep : step parseFromArray s .read = some t) : Inv t := by
  obtain ⟨number, quiet, item, rest, hclient, hq, rfl⟩ := read_cases hstep
  have hawaits := h.reading number quiet hclient
  have hnumbers := h.numbers
  have hempty := h.empty
  unfold State.outstanding at hawaits hnumbers
  rw [hq] at hawaits hnumbers hempty
  apply inv_finish
  · exact fun k hk => hnumbers k (List.mem_cons_of_mem _ hk)
  · exact fun item' hitem' => hempty item' (List.mem_cons_of_mem _ hitem')
  · exact h.returned
  · intro response hresponse
    have hsome : item.request ≠ none := fun hnone =>
      ne_nil_of_parseResponse hresponse (hempty item List.mem_cons_self hnone)
    exact hawaits.head hsome

theorem Inv.stop (h : Inv s) :
    Inv { s with inQ := ⟨⟨s.inQ.q.q ++ [⟨none, []⟩]⟩, s.inQ.maxSize⟩ } := by
  have hout : State.outstanding { s with inQ := ⟨⟨s.inQ.q.q ++ [⟨none, []⟩]⟩, s.inQ.maxSize⟩ } =
      s.inQ.q.q.map Item.request ++ none ::
        (s.toClient.map Item.request ++ s.toServer.map fun r => some r.number) := by
    simp [State.outstanding]
  have hold : s.outstanding = s.inQ.q.q.map Item.request ++
      (s.toClient.map Item.request ++ s.toServer.map fun r => some r.number) :=
    List.append_assoc _ _ _
  refine ⟨?_, ?_, ?_, h.returned⟩
  · intro k hk
    apply h.numbers
    rw [hout, List.mem_append, List.mem_cons] at hk
    rw [hold, List.mem_append]
    exact hk.imp_right fun hk => hk.resolve_left nofun
  · intro item hitem hnone
    rw [List.append_assoc, List.mem_append, List.singleton_append, List.mem_cons] at hitem
    rcases hitem with hitem | rfl | hitem
    · exact h.empty item (List.mem_append_left _ hitem) hnone
    · rfl
    · exact h.empty item (List.mem_append_right _ hitem) hnone
  · intro number quiet hclient
    have hawaits := h.reading number quiet hclient
    rw [hold] at hawaits
    rw [hout]
    exact hawaits.insert_none

theorem inv_step (h : Inv s) (hstep : step parseFromArray s a = some t) : Inv t := by
  cases a with
  | send data =>
    rw [step] at hstep
    split at hstep
    · obtain rfl := Option.some.inj hstep
      exact h.send data
    · cases hstep
  | sendFails message =>
    rw [step] at hstep
    split at hstep
    · obtain rfl := Option.some.inj hstep
      exact h.move rfl rfl rfl rfl h.empty
    · cases hstep
  | read => exact h.read hstep
  | readTimeout what =>
    rw [step] at hstep
    split at hstep
    · cases hstep
    · obtain ⟨-, hstep⟩ := Option.ite_none_right_eq_some.mp hstep
      obtain rfl := Option.some.inj hstep
      exact ⟨h.numbers, h.empty, nofun, h.returned⟩
  | answer bytes =>
    rw [step] at hstep
    split at hstep
    · cases hstep
    · next r rest hserver =>
      obtain rfl := Option.some.inj hstep
      refine h.move ?_ rfl rfl rfl ?_
      · simp [State.outstanding, hserver]
      · intro item hitem hnone
        rw [← List.append_assoc, List.mem_append, List.mem_singleton] at hitem
        rcases hitem with hitem | rfl
        · exact h.empty item hitem hnone
        · cases hnone
  | deliver =>
    rw [step] at hstep
    split at hstep
    · cases hstep
    · next item rest hclient =>
      obtain ⟨q, hq, rfl⟩ := Option.map_eq_some_iff.mp hstep
      obtain ⟨-, rfl⟩ := AsyncQueue.stdQueue_emplace_eq_some.mp hq
      refine h.move ?_ rfl rfl rfl ?_
      · simp [State.outstanding, hclient]
      · have hempty := h.empty
        rw [hclient, List.append_cons] at hempty
        exact hempty
  | stop =>
    rw [step] at hstep
    obtain ⟨q, hq, rfl⟩ := Option.map_eq_some_iff.mp hstep
    obtain ⟨-, rfl⟩ := AsyncQueue.stdQueue_emplace_eq_some.mp hq
    exact h.stop

/-- In every run, the calls that have returned have returned the response to their own request
exactly when each of them sent it while nothing was outstanding. -/
theorem paired_iff_quiet {acts : List Action}
    (hrun : run (step parseFromArray) State.init acts = some s) :
    Paired s ↔ ∀ c ∈ s.returned, c.quiet = true := by
  have h : Inv s := run_invariant (fun _ _ _ h hstep => inv_step h hstep) inv_init hrun
  exact forall₂_congr h.returned

/-- The second request is sent after the response to the first one has been read. -/
def oneAfterTheOther : List Action :=
  [.send [1], .answer [11], .deliver, .read, .send [2], .answer [12], .deliver, .read]

theorem oneAfterTheOther_paired :
    ∃ s, run (step some) State.init oneAfterTheOther = some s ∧ s.returned.length = 2 ∧
      Paired s := by
  have hrun : run (step some) State.init oneAfterTheOther =
      some ((run (step some) State.init oneAfterTheOther).get (by decide)) := by
    simp
  exact ⟨_, hrun, by decide, (paired_iff_quiet hrun).mpr (by decide)⟩

end Ra2yrcpp.InstrumentationClient
