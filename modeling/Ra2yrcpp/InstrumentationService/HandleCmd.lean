import Ra2yrcpp.Protocol.MessageStream

/-!
# Arguments of a command

From `handle_cmd` to the function of a handler: the name that is taken from the type URL of the
arguments, the handler registered for it, and the `ISCommand` that `get_cmd` makes, whose constructor
drops the result of `UnpackTo`.
-/

namespace Ra2yrcpp.InstrumentationService.HandleCmd

open Protocol

/-! ## Names and type URLs -/

/-- The tokens of a `sregex_token_iterator` over what does not match.  An empty token behind the last
match is left out; where nothing matches, the whole text is the token. -/
def tokensFrom (delim : Char) : Bool → List Char → List Char → List (List Char)
  | matched, cur, [] => if matched ∧ cur = [] then [] else [cur]
  | matched, cur, c :: str =>
    if c = delim then cur :: tokensFrom delim true [] str
    else tokensFrom delim matched (cur ++ [c]) str

/-- `split_string`, for a delimiter that is one character and stands for itself. -/
def splitString (str : List Char) (delim : Char) : List (List Char) := tokensFrom delim false [] str

/-- The name that `handle_cmd` looks up. -/
def commandName (typeUrl : List Char) : Option (List Char) := (splitString typeUrl '/').getLast?

/-- What follows the last delimiter, if there is one. -/
def afterLast (delim : Char) : List Char → Option (List Char)
  | [] => none
  | c :: str =>
    match afterLast delim str with
    | some r => some r
    | none => if c = delim then some str else none

/-- `google::protobuf::Any`. -/
structure Any where
  typeUrl : List Char := []
  value : Bytes := []
  deriving DecidableEq, Repr

/-- A message type with its name, which is a sequence of identifiers with dots between them. -/
structure Descriptor (Msg : Type) extends MessageType Msg where
  fullName : List Char
  fullName_ne_nil : fullName ≠ []
  slash_not_mem : '/' ∉ fullName

/-- The type in a type URL: not empty, behind the last slash. -/
def typeOfUrl (typeUrl : List Char) : Option (List Char) :=
  (afterLast '/' typeUrl).filter fun r => r ≠ []

/-- `UnpackTo`: whether it succeeded, and the message. -/
def Any.unpackTo {Msg : Type} (a : Any) (D : Descriptor Msg) (m : Msg) : Bool × Msg :=
  if typeOfUrl a.typeUrl = some D.fullName then
    match D.parse a.value with
    | some m => (true, m)
    | none => (false, D.parseFailed m a.value)
  else (false, m)

def Any.packFrom {Msg : Type} (D : Descriptor Msg) (m : Msg) : Any :=
  ⟨"type.googleapis.com/".toList ++ D.fullName, D.serialize m⟩

/-! ## Commands -/

inductive ResultCode
  | none
  | ok
  | error
  deriving DecidableEq, Repr

/-- What a handler works on of a command; `M` is `command_data()->M`. -/
structure Command where
  M : Any
  pending : Bool := false
  resultCode : ResultCode := .none
  errorMessage : String := ""
  deriving DecidableEq, Repr

/-- What the function of a handler leaves: the world, its message, whether it has called
`set_async_handler`, and the exception it ended with. -/
structure FnOutcome (World Msg : Type) where
  world : World
  message : Msg
  pending : Bool
  thrown : Option String

/-- A handler made by `get_cmd`, with the message type it is for. -/
structure Handler (World : Type) where
  Msg : Type
  type : Descriptor Msg
  async : Bool
  fn : Msg → World → FnOutcome World Msg

variable {World : Type}

/-- `ISCommand::save_command_result`. -/
def saveCommandResult (h : Handler World) (c : Command) (m : h.Msg) : Command × h.Msg :=
  if c.pending then (c, h.type.new) else ({ c with M := Any.packFrom h.type m }, m)

/-- A command that has been run: what its function was invoked with, if it was. -/
structure Executed (h : Handler World) where
  invoked : Option h.Msg
  command : Command
  world : World

/-- The lambda of `get_cmd`; an exception is returned with the command. -/
def getCmd (h : Handler World) (c : Command) (w : World) : Executed h × Option String :=
  -- the constructor of `ISCommand`
  let m := (c.M.unpackTo h.type h.type.new).2
  let (c, m) :=
    if h.async then
      let (c, m) := saveCommandResult h c m
      ({ c with pending := true }, m)
    else (c, m)
  let r := h.fn m w
  let c := { c with pending := c.pending || r.pending }
  let c := if r.thrown.isSome then { c with M := {} } else c
  -- the destructor
  let c := (saveCommandResult h c r.message).1
  (⟨some m, c, r.world⟩, r.thrown)

/-- `emplace_user_command` up to the result code. -/
def emplaceUserCommand (h : Handler World) (c : Command) (w : World) : Executed h :=
  match getCmd h { c with resultCode := .none } w with
  | (r, none) => { r with command := { r.command with resultCode := .ok } }
  | (r, some what) =>
    { r with command := { r.command with errorMessage := what, resultCode := .error } }

/-- The handlers in the order in which `add_command` registered them; a later one replaces an earlier
one of its name. -/
abbrev Handlers (World : Type) := List (Handler World)

def Handlers.lookup (handlers : Handlers World) (name : List Char) : Option (Handler World) :=
  handlers.reverse.find? fun h => h.type.fullName = name

/-- `handle_cmd`, and the worker that runs the command.  `at` throws for an unknown name, and no
command is made. -/
inductive Outcome (World : Type) : Type 1
  | outOfRange (world : World)
  | executed (h : Handler World) (r : Executed h)

def handleCmd (handlers : Handlers World) (clientCmd : Any) (w : World) : Outcome World :=
  match (commandName clientCmd.typeUrl).bind handlers.lookup with
  | none => .outOfRange w
  | some h => .executed h (emplaceUserCommand h { M := clientCmd } w)

/-- A function is invoked with what the value decodes to; where it is not invoked, the command ends
with `ERROR` and the world is as it was. -/
def ReachedByDecoded (clientCmd : Any) (w : World) : Outcome World → Prop
  | .outOfRange w' => w' = w
  | .executed h r =>
    (∀ m, r.invoked = some m → clientCmd.unpackTo h.type h.type.new = (true, m)) ∧
      (r.invoked = none → r.command.resultCode = .error ∧ r.world = w)

/-! ## The last token -/

section Tokens

variable {delim : Char} {str r : List Char}

theorem afterLast_eq_none : afterLast delim str = none ↔ delim ∉ str := by
  induction str with
  | nil => simp [afterLast]
  | cons c str ih =>
    rw [afterLast, List.mem_cons, not_or, ← ih]
    cases afterLast delim str with
    | some r => simp
    | none =>
      by_cases hc : c = delim
      · simp [hc]
      · have hc' : delim ≠ c := fun he => hc he.symm
        simp [hc, hc']

theorem afterLast_eq_some (h : afterLast delim str = some r) :
    delim ∉ r ∧ ∃ p, str = p ++ delim :: r := by
  induction str with
  | nil => cases h
  | cons c str ih =>
    rw [afterLast] at h
    cases hrec : afterLast delim str with
    | some r' =>
      rw [hrec] at h
      cases h
      obtain ⟨hr, p, hp⟩ := ih hrec
      exact ⟨hr, c :: p, by rw [hp, List.cons_append]⟩
    | none =>
      rw [hrec] at h
      by_cases hc : c = delim
      · dsimp only at h
        rw [if_pos hc] at h
        cases h
        exact ⟨afterLast_eq_none.mp hrec, [], by rw [hc, List.nil_append]⟩
      · dsimp only at h
        rw [if_neg hc] at h
        cases h

/-- A text that does not end with the delimiter has a token behind the last one. -/
theorem getLast?_tokensFrom (hne : str ≠ []) (hlast : str.getLast? ≠ some delim) (matched : Bool)
    (cur : List Char) :
    (tokensFrom delim matched cur str).getLast? =
      some ((afterLast delim str).getD (cur ++ str)) := by
  induction str generalizing matched cur with
  | nil => exact absurd rfl hne
  | cons c str ih =>
    rw [tokensFrom, afterLast]
    cases hstr : str with
    | nil =>
      have hc : c ≠ delim := by
        intro hc
        rw [hstr, hc] at hlast
        exact hlast rfl
      rw [if_neg hc, tokensFrom, if_neg (by simp), afterLast, if_neg hc]
      rfl
    | cons d rest =>
      rw [← hstr]
      have hne' : str ≠ [] := by rw [hstr]; nofun
      have hlast' : str.getLast? ≠ some delim := by
        rw [hstr, List.getLast?_cons_cons, ← hstr] at hlast
        exact hlast
      by_cases hc : c = delim
      · rw [if_pos hc, if_pos hc]
        -- behind a delimiter that is not the last character there is a token
        have htail : tokensFrom delim true [] str ≠ [] := by
          intro hnil
          have h := ih hne' hlast' true []
          rw [hnil] at h
          cases h
        rw [List.getLast?_cons_of_ne_nil htail, ih hne' hlast' true []]
        cases afterLast delim str <;> rfl
      · rw [if_neg hc, if_neg hc, ih hne' hlast' matched (cur ++ [c])]
        cases afterLast delim str <;> simp

/-- The type that a URL names is what `handle_cmd` looks up, if the URL names one. -/
theorem commandName_of_slash (hmem : '/' ∈ str) (hlast : str.getLast? ≠ some '/') :
    commandName str = typeOfUrl str ∧ (typeOfUrl str).isSome := by
  have hne : str ≠ [] := List.ne_nil_of_mem hmem
  cases hafter : afterLast '/' str with
  | none => exact absurd hmem (afterLast_eq_none.mp hafter)
  | some r =>
    obtain ⟨-, p, hp⟩ := afterLast_eq_some hafter
    have hr : r ≠ [] := by
      intro hr
      rw [hp, hr, List.getLast?_concat] at hlast
      exact hlast rfl
    have htype : typeOfUrl str = some r := by
      unfold typeOfUrl
      rw [hafter, Option.filter_some, if_pos (by simpa using hr)]
    unfold commandName splitString
    rw [getLast?_tokensFrom hne hlast, hafter, htype]
    exact ⟨rfl, rfl⟩

theorem slash_of_typeOfUrl (h : typeOfUrl str = some r) :
    '/' ∈ str ∧ str.getLast? ≠ some '/' := by
  obtain ⟨hafter, hr⟩ := Option.filter_eq_some_iff.mp h
  obtain ⟨hslash, p, hp⟩ := afterLast_eq_some hafter
  have hne : r ≠ [] := by simpa using hr
  constructor
  · rw [hp]
    exact List.mem_append_right p List.mem_cons_self
  · intro hlast
    rw [hp, List.getLast?_append_of_ne_nil p (List.cons_ne_nil _ _),
      List.getLast?_cons_of_ne_nil hne] at hlast
    exact hslash (List.mem_of_getLast? hlast)

end Tokens

/-! ## What reaches the function -/

/-- The type URL has a slash, but not at its end, and the value parses. -/
def WellFormed {Msg : Type} (D : Descriptor Msg) (a : Any) : Prop :=
  '/' ∈ a.typeUrl ∧ a.typeUrl.getLast? ≠ some '/' ∧ (D.parse a.value).isSome

theorem unpackTo_ok_iff {Msg : Type} (D : Descriptor Msg) (a : Any) (m : Msg) :
    (a.unpackTo D m).1 = true ↔ typeOfUrl a.typeUrl = some D.fullName ∧ (D.parse a.value).isSome := by
  unfold Any.unpackTo
  by_cases htype : typeOfUrl a.typeUrl = some D.fullName
  · rw [if_pos htype]
    cases D.parse a.value with
    | none => simp
    | some m' => simp [htype]
  · rw [if_neg htype]
    simp [htype]

theorem lookup_fullName {handlers : Handlers World} {name : List Char} {h : Handler World}
    (hlookup : handlers.lookup name = some h) : h.type.fullName = name := by
  have hfound := List.find?_some hlookup
  exact of_decide_eq_true hfound

/-- The function is invoked with whatever `UnpackTo` has left. -/
theorem getCmd_invoked (h : Handler World) (a : Any) (w : World) :
    (getCmd h { M := a } w).1.invoked = some (a.unpackTo h.type h.type.new).2 := by
  unfold getCmd saveCommandResult
  cases h.async <;> rfl

theorem emplaceUserCommand_invoked (h : Handler World) (a : Any) (w : World) :
    (emplaceUserCommand h { M := a } w).invoked = some (a.unpackTo h.type h.type.new).2 := by
  have hget := getCmd_invoked h a w
  unfold emplaceUserCommand
  split
  · next r hr => exact (congrArg (fun x => x.1.invoked) hr).symm.trans hget
  · next r what hr => exact (congrArg (fun x => x.1.invoked) hr).symm.trans hget

/-- The arguments of a command reach no handler undecoded exactly when there is no handler for the
name that is looked up, or the type URL has a slash but not at its end, and the value parses. -/
theorem handleCmd_reachedByDecoded_iff (handlers : Handlers World) (clientCmd : Any) (w : World) :
    ReachedByDecoded clientCmd w (handleCmd handlers clientCmd w) ↔
      ∀ h, (commandName clientCmd.typeUrl).bind handlers.lookup = some h →
        WellFormed h.type clientCmd := by
  unfold handleCmd
  cases hlookup : (commandName clientCmd.typeUrl).bind handlers.lookup with
  | none => exact iff_of_true rfl nofun
  | some h =>
    have hinvoked := emplaceUserCommand_invoked h clientCmd w
    -- the function always runs, so all depends on whether `UnpackTo` succeeded
    have hreached : ReachedByDecoded clientCmd w
        (.executed h (emplaceUserCommand h { M := clientCmd } w)) ↔
        (clientCmd.unpackTo h.type h.type.new).1 = true := by
      constructor
      · intro hall
        rw [hall.1 _ hinvoked]
      · intro hok
        constructor
        · intro m hm
          rw [hinvoked] at hm
          cases hm
          exact Prod.ext hok rfl
        · intro hnone
          rw [hinvoked] at hnone
          cases hnone
    show ReachedByDecoded clientCmd w (.executed h _) ↔ _
    rw [hreached, unpackTo_ok_iff]
    constructor
    · intro hok h' hh'
      cases hh'
      obtain ⟨hmem, hlast⟩ := slash_of_typeOfUrl hok.1
      exact ⟨hmem, hlast, hok.2⟩
    · intro hwell
      obtain ⟨hmem, hlast, hparse⟩ := hwell h rfl
      obtain ⟨hname, -⟩ := commandName_of_slash hmem hlast
      obtain ⟨name, hcommand, hfound⟩ := Option.bind_eq_some_iff.mp hlookup
      rw [← hname, hcommand, lookup_fullName hfound]
      exact ⟨rfl, hparse⟩

/-- A command with two flags; its handler notes what it was invoked with. -/
def flagsHandler : Handler (List (Bool × Bool)) where
  Msg := Bool × Bool
  type :=
    { toMessageType := flagsMessage
      fullName := "commands.Flags".toList
      fullName_ne_nil := by decide
      slash_not_mem := by decide }
  async := false
  fn m w := ⟨w ++ [m], m, false, none⟩

/-- The handler is invoked with a default message, and the command ends with `OK`. -/
def RunsOnDefault (a : Any) : Prop :=
  ∃ r : Executed flagsHandler, handleCmd [flagsHandler] a [] = .executed flagsHandler r ∧
    r.world = [(false, false)] ∧ r.command.resultCode = .ok

/-- It does where the type URL has no slash or ends with one, though the value is that of a message,
and where the value does not parse. -/
theorem flagsHandler_invoked_undecoded :
    (RunsOnDefault ⟨"commands.Flags".toList, [8, 1]⟩ ∧
      ¬ReachedByDecoded ⟨"commands.Flags".toList, [8, 1]⟩ []
        (handleCmd [flagsHandler] ⟨"commands.Flags".toList, [8, 1]⟩ [])) ∧
    (RunsOnDefault ⟨"type.googleapis.com/commands.Flags/".toList, [8, 1]⟩ ∧
      ¬ReachedByDecoded ⟨"type.googleapis.com/commands.Flags/".toList, [8, 1]⟩ []
        (handleCmd [flagsHandler] ⟨"type.googleapis.com/commands.Flags/".toList, [8, 1]⟩ [])) ∧
    (RunsOnDefault ⟨"type.googleapis.com/commands.Flags".toList, [8, 1, 255]⟩ ∧
      ¬ReachedByDecoded ⟨"type.googleapis.com/commands.Flags".toList, [8, 1, 255]⟩ []
        (handleCmd [flagsHandler] ⟨"type.googleapis.com/commands.Flags".toList, [8, 1, 255]⟩ [])) := by
  refine ⟨⟨⟨_, rfl, rfl, rfl⟩, ?_⟩, ⟨⟨_, rfl, rfl, rfl⟩, ?_⟩, ⟨⟨_, rfl, rfl, rfl⟩, ?_⟩⟩
  all_goals
    intro hreached
    have hok := congrArg Prod.fst (hreached.1 (false, false) rfl)
    revert hok
    decide

end Ra2yrcpp.InstrumentationService.HandleCmd
