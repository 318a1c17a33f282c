import Ra2yrcpp.StateContext

/-!
# Looking up an object

`get_object_entry` of `state_context.cpp`, by predicate and by address.  The first resolves the type
class of every object it passes and leaves the search by an exception where there is none, the second
resolves that of the object it found.
-/

namespace Ra2yrcpp.StateContext

open StateParser (ObjectMessage)

/-! ## Messages and pointers -/

/-- A pointer into a repeated field: the position, and the message that is there. -/
structure Ref (α : Type) where
  index : Nat
  value : α
  deriving DecidableEq, Repr

/-- `ra2yrproto::ra2yr::ObjectTypeClass` with the address it is found by. -/
structure TypeClass extends ObjectTypeClass where
  pointerSelf : UInt32
  deriving DecidableEq, Repr

/-- `ra2::ObjectEntry`; `none` is the null pointer. -/
structure ObjectEntry where
  o : Option (Ref ObjectMessage) := none
  tc : Option (Ref TypeClass) := none
  deriving DecidableEq, Repr

/-- What the lookups read of the storage. -/
structure Storage where
  objects : List ObjectMessage
  objectTypes : List TypeClass

/-- `tc_cache_t`, a map by address. -/
abbrev TcCache := List (UInt32 × Ref TypeClass)

inductive LookupError
  /-- `invalid type class {}` -/
  | invalidTypeClass (address : UInt32)
  /-- `object not found` -/
  | objectNotFound
  /-- `object {} not found` -/
  | addressNotFound (address : UInt32)
  deriving DecidableEq, Repr

/-! ## The lookups -/

def TcCache.emplace (tc : TcCache) (address : UInt32) (O : Ref TypeClass) : TcCache :=
  if (tc.lookup address).isSome then tc else tc ++ [(address, O)]

def fillCache : List TypeClass → Nat → TcCache → TcCache
  | [], _, tc => tc
  | O :: types, i, tc => fillCache types (i + 1) (tc.emplace O.pointerSelf ⟨i, O⟩)

/-- `tc_cache()`: filled once, from the types of the initial state. -/
def tcCache (S : Storage) (tc : TcCache) : TcCache :=
  if tc.isEmpty then fillCache S.objectTypes 0 tc else tc

def getTypeClass (S : Storage) (address : UInt32) (tc : TcCache) :
    TcCache × Except LookupError (Ref TypeClass) :=
  let tc := tcCache S tc
  match tc.lookup address with
  | some t => (tc, .ok t)
  | none => (tc, .error (.invalidTypeClass address))

/-- `find_entry` from entry `i` on.  The predicate may throw, and writes its captures `s`. -/
def findEntryFrom {T σ : Type} (pred : Ref T → σ → σ × Except LookupError Bool) :
    List T → Nat → σ → σ × Except LookupError (Option (Ref T))
  | [], _, s => (s, .ok none)
  | v :: E, i, s =>
    match pred ⟨i, v⟩ s with
    | (s, .error e) => (s, .error e)
    | (s, .ok true) => (s, .ok (some ⟨i, v⟩))
    | (s, .ok false) => findEntryFrom pred E (i + 1) s

def getObject {σ : Type} (S : Storage)
    (pred : Ref ObjectMessage → σ → σ × Except LookupError Bool) (s : σ) :
    σ × Except LookupError (Option (Ref ObjectMessage)) :=
  findEntryFrom pred S.objects 0 s

def getObjectByAddress (S : Storage) (address : UInt32) (tc : TcCache) :
    TcCache × Except LookupError (Ref ObjectMessage) :=
  match getObject S (fun v tc => (tc, .ok (v.value.pointerSelf == address))) tc with
  | (tc, .error e) => (tc, .error e)
  | (tc, .ok none) => (tc, .error (.addressNotFound address))
  | (tc, .ok (some O)) => (tc, .ok O)

/-- The lambda of `get_object_entry(pred)`: `res` is the entry it looked at last. -/
def entryPred (S : Storage) (pred : ObjectEntry → Bool) (v : Ref ObjectMessage)
    (s : TcCache × ObjectEntry) : (TcCache × ObjectEntry) × Except LookupError Bool :=
  match getTypeClass S v.value.pointerTechnotypeclass s.1 with
  | (tc, .error e) => ((tc, s.2), .error e)
  | (tc, .ok t) => ((tc, ⟨some v, some t⟩), .ok (pred ⟨some v, some t⟩))

def getObjectEntryPred (S : Storage) (pred : ObjectEntry → Bool) (tc : TcCache) :
    TcCache × Except LookupError ObjectEntry :=
  match getObject S (entryPred S pred) (tc, {}) with
  | ((tc, _), .error e) => (tc, .error e)
  | ((tc, _), .ok none) => (tc, .error .objectNotFound)
  | ((tc, res), .ok (some _)) => (tc, .ok res)

def getObjectEntry (S : Storage) (address : UInt32) (tc : TcCache) :
    TcCache × Except LookupError ObjectEntry :=
  match getObjectByAddress S address tc with
  | (tc, .error e) => (tc, .error e)
  | (tc, .ok o) =>
    match getTypeClass S o.value.pointerTechnotypeclass tc with
    | (tc, .error e) => (tc, .error e)
    | (tc, .ok t) => (tc, .ok ⟨some o, some t⟩)

/-- The predicate `pointer_self` equals `address`. -/
def hasAddress (address : UInt32) (v : ObjectEntry) : Bool :=
  v.o.any fun o => o.value.pointerSelf == address

/-- The predicate with which `UnitOrderCtx::perform` looks for the unit `k`. -/
def unitPred (k : UInt32) (v : ObjectEntry) : Bool :=
  v.o.any fun o => o.value.pointerSelf == k && !o.value.inLimbo

/-! ## What the search finds -/

/-- The first object that satisfies `p`, from position `i` on. -/
def firstFrom (p : ObjectMessage → Bool) : List ObjectMessage → Nat → Option (Ref ObjectMessage)
  | [], _ => none
  | v :: E, i => if p v then some ⟨i, v⟩ else firstFrom p E (i + 1)

/-- The type class of an object, once the cache is filled. -/
def typeClass? (S : Storage) (tc : TcCache) (v : ObjectMessage) : Option (Ref TypeClass) :=
  (tcCache S tc).lookup v.pointerTechnotypeclass

/-- The objects that a search for `p` passes before its match. -/
def passed (S : Storage) (p : ObjectMessage → Bool) : List ObjectMessage :=
  S.objects.takeWhile fun v => !p v

/-- Both return the same entry, or both throw. -/
def Agree : Except LookupError ObjectEntry → Except LookupError ObjectEntry → Prop
  | .ok a, .ok b => a = b
  | .error _, .error _ => True
  | _, _ => False

instance : DecidableRel Agree
  | .ok a, .ok b => inferInstanceAs (Decidable (a = b))
  | .error _, .error _ => isTrue trivial
  | .ok _, .error _ => isFalse id
  | .error _, .ok _ => isFalse id

/-- Where the object with the address has a type class, so have all the objects listed before it. -/
def PassedResolve (S : Storage) (tc : TcCache) (address : UInt32) : Prop :=
  ∀ o, S.objects.find? (fun v => v.pointerSelf == address) = some o →
    (typeClass? S tc o).isSome →
      ∀ v ∈ passed S fun v => v.pointerSelf == address, (typeClass? S tc v).isSome

theorem agree_iff (a b : Except LookupError ObjectEntry) :
    Agree a b ↔ ∀ e, a = .ok e ↔ b = .ok e := by
  cases a with
  | error x =>
    cases b with
    | error y => exact iff_of_true trivial fun e => ⟨nofun, nofun⟩
    | ok y => exact iff_of_false id fun h => nomatch (h y).mpr rfl
  | ok x =>
    cases b with
    | error y => exact iff_of_false id fun h => nomatch (h x).mp rfl
    | ok y =>
      constructor
      · intro h e
        rw [show x = y from h]
      · intro h
        exact (Except.ok.inj ((h x).mp rfl)).symm

theorem firstFrom_value (p : ObjectMessage → Bool) (E : List ObjectMessage) (i : Nat) :
    (firstFrom p E i).map Ref.value = E.find? p := by
  induction E generalizing i with
  | nil => rfl
  | cons v E ih =>
    rw [firstFrom, List.find?_cons]
    cases h : p v with
    | true => rfl
    | false => exact ih (i + 1)

theorem tcCache_tcCache (S : Storage) (tc : TcCache) : tcCache S (tcCache S tc) = tcCache S tc := by
  cases tc with
  | nil =>
    show tcCache S (fillCache S.objectTypes 0 []) = fillCache S.objectTypes 0 []
    cases hfill : fillCache S.objectTypes 0 [] with
    | nil => exact hfill
    | cons t tc => rfl
  | cons t tc => rfl

theorem getTypeClass_eq (S : Storage) (v : ObjectMessage) (tc : TcCache) :
    getTypeClass S v.pointerTechnotypeclass tc =
      (tcCache S tc, match typeClass? S tc v with
        | some t => .ok t
        | none => .error (.invalidTypeClass v.pointerTechnotypeclass)) := by
  unfold getTypeClass typeClass?
  cases h : (tcCache S tc).lookup v.pointerTechnotypeclass <;> simp [h]

theorem typeClass?_tcCache (S : Storage) (tc : TcCache) (v : ObjectMessage) :
    typeClass? S (tcCache S tc) v = typeClass? S tc v := by
  unfold typeClass?
  rw [tcCache_tcCache]

section Search

variable (S : Storage) {pred : ObjectEntry → Bool} {p : ObjectMessage → Bool}

theorem entryPred_none {v : Ref ObjectMessage} {tc : TcCache} (res : ObjectEntry)
    (ht : typeClass? S tc v.value = none) :
    entryPred S pred v (tc, res) = ((tcCache S tc, res),
      .error (.invalidTypeClass v.value.pointerTechnotypeclass)) := by
  unfold entryPred
  rw [getTypeClass_eq, ht]

theorem entryPred_some {v : Ref ObjectMessage} {tc : TcCache} {t : Ref TypeClass}
    (res : ObjectEntry) (ht : typeClass? S tc v.value = some t) :
    entryPred S pred v (tc, res) =
      ((tcCache S tc, ⟨some v, some t⟩), .ok (pred ⟨some v, some t⟩)) := by
  unfold entryPred
  rw [getTypeClass_eq, ht]

/-- The search by predicate finds `r` when the objects it passes and `r` itself have type classes. -/
theorem findEntryFrom_entryPred_ok_iff
    (hpred : ∀ v t, pred ⟨some v, some t⟩ = p v.value) (E : List ObjectMessage) (i : Nat)
    (tc : TcCache) (res : ObjectEntry) (r : Ref ObjectMessage) (e : ObjectEntry) :
    ((findEntryFrom (entryPred S pred) E i (tc, res)).2 = .ok (some r) ∧
        (findEntryFrom (entryPred S pred) E i (tc, res)).1.2 = e) ↔
      firstFrom p E i = some r ∧
        (∀ v ∈ E.takeWhile fun v => !p v, (typeClass? S tc v).isSome) ∧
        ∃ t, typeClass? S tc r.value = some t ∧ e = ⟨some r, some t⟩ := by
  induction E generalizing i tc res with
  | nil => simp [findEntryFrom, firstFrom]
  | cons v E ih =>
    rw [findEntryFrom, firstFrom, List.takeWhile_cons]
    cases ht : typeClass? S tc v with
    | none =>
      -- the search ends here, whether or not `v` is the match
      rw [entryPred_none S res (v := ⟨i, v⟩) ht]
      constructor
      · intro h
        cases h.1
      · intro h
        obtain ⟨hr, hpassed, t, ht', -⟩ := h
        cases hp : p v with
        | true =>
          rw [hp, if_pos rfl] at hr
          cases hr
          rw [ht] at ht'
          cases ht'
        | false =>
          have hv := hpassed v (by simp [hp])
          rw [ht] at hv
          cases hv
    | some t =>
      -- from here on the cache is filled
      rw [entryPred_some S res (v := ⟨i, v⟩) ht, hpred]
      cases hp : p v with
      | true =>
        constructor
        · intro h
          obtain ⟨hr, he⟩ := h
          cases hr
          exact ⟨rfl, by simp, t, ht, he.symm⟩
        · intro h
          obtain ⟨hr, -, t', ht', he⟩ := h
          cases hr
          rw [ht] at ht'
          cases ht'
          exact ⟨rfl, he.symm⟩
      | false =>
        have hih := ih (i + 1) (tcCache S tc) ⟨some ⟨i, v⟩, some t⟩
        simp only [typeClass?_tcCache] at hih
        show (_ ∧ _) ↔ _
        rw [hih]
        simp [ht]

/-- What the lookup by predicate returns, for a predicate of the object alone. -/
theorem getObjectEntryPred_ok_iff (hpred : ∀ v t, pred ⟨some v, some t⟩ = p v.value) (tc : TcCache)
    (e : ObjectEntry) :
    (getObjectEntryPred S pred tc).2 = .ok e ↔
      ∃ r t, firstFrom p S.objects 0 = some r ∧ typeClass? S tc r.value = some t ∧
        e = ⟨some r, some t⟩ ∧ ∀ v ∈ passed S p, (typeClass? S tc v).isSome := by
  -- what comes out is `res` as the search left it, not what the search returned
  have hfind := findEntryFrom_entryPred_ok_iff S hpred S.objects 0 tc {}
  unfold getObjectEntryPred getObject
  generalize findEntryFrom (entryPred S pred) S.objects 0 (tc, {}) = found at hfind ⊢
  obtain ⟨⟨tc', res⟩, result⟩ := found
  cases result with
  | error x =>
    constructor
    · intro h
      cases h
    · intro h
      obtain ⟨r, t, hr, ht, he, hpassed⟩ := h
      cases ((hfind r e).mpr ⟨hr, hpassed, t, ht, he⟩).1
  | ok o =>
    cases o with
    | none =>
      constructor
      · intro h
        cases h
      · intro h
        obtain ⟨r, t, hr, ht, he, hpassed⟩ := h
        cases ((hfind r e).mpr ⟨hr, hpassed, t, ht, he⟩).1
    | some r =>
      constructor
      · intro h
        cases h
        obtain ⟨hr, hpassed, t, ht, he⟩ := (hfind r e).mp ⟨rfl, rfl⟩
        exact ⟨r, t, hr, ht, he, hpassed⟩
      · intro h
        obtain ⟨r', t, hr, ht, he, hpassed⟩ := h
        have hres := ((hfind r' e).mpr ⟨hr, hpassed, t, ht, he⟩).2
        exact congrArg Except.ok hres

end Search

theorem findEntryFrom_address (address : UInt32) (E : List ObjectMessage) (i : Nat) (tc : TcCache) :
    findEntryFrom (fun (v : Ref ObjectMessage) (tc : TcCache) =>
        (tc, .ok (v.value.pointerSelf == address))) E i tc =
      (tc, .ok (firstFrom (fun v => v.pointerSelf == address) E i)) := by
  induction E generalizing i with
  | nil => rfl
  | cons v E ih =>
    rw [findEntryFrom, firstFrom]
    cases h : v.pointerSelf == address with
    | true => rfl
    | false => exact ih (i + 1)

theorem getObjectEntry_ok_iff (S : Storage) (address : UInt32) (tc : TcCache) (e : ObjectEntry) :
    (getObjectEntry S address tc).2 = .ok e ↔
      ∃ r t, firstFrom (fun v => v.pointerSelf == address) S.objects 0 = some r ∧
        typeClass? S tc r.value = some t ∧ e = ⟨some r, some t⟩ := by
  unfold getObjectEntry getObjectByAddress getObject
  rw [findEntryFrom_address]
  cases hr : firstFrom (fun v => v.pointerSelf == address) S.objects 0 with
  | none => simp
  | some r =>
    simp only [getTypeClass_eq]
    cases ht : typeClass? S tc r.value with
    | none => simp [ht]
    | some t => simp [ht, eq_comm]

/-- The two lookups agree exactly when every object listed before the one that is looked for has its
type class in the cache, or the one that is looked for is missing or has none. -/
theorem getObjectEntry_agree_iff (S : Storage) (address : UInt32) (tc : TcCache) :
    Agree (getObjectEntryPred S (hasAddress address) tc).2 (getObjectEntry S address tc).2 ↔
      PassedResolve S tc address := by
  have hpred : ∀ v t, hasAddress address ⟨some v, some t⟩ = (v.value.pointerSelf == address) :=
    fun _ _ => rfl
  have hok := getObjectEntryPred_ok_iff (p := fun v => v.pointerSelf == address) S hpred tc
  have hvalue := firstFrom_value (fun v => v.pointerSelf == address) S.objects 0
  rw [agree_iff]
  constructor
  · intro h o ho htype
    rw [← hvalue, Option.map_eq_some_iff] at ho
    obtain ⟨r, hr, rfl⟩ := ho
    obtain ⟨t, ht⟩ := Option.isSome_iff_exists.mp htype
    have hentry := (getObjectEntry_ok_iff S address tc ⟨some r, some t⟩).mpr ⟨r, t, hr, ht, rfl⟩
    obtain ⟨r', t', -, -, -, hpassed⟩ := (hok _).mp ((h _).mpr hentry)
    exact hpassed
  · intro h e
    rw [hok, getObjectEntry_ok_iff]
    constructor
    · intro hpredok
      obtain ⟨r, t, hr, ht, he, -⟩ := hpredok
      exact ⟨r, t, hr, ht, he⟩
    · intro haddress
      obtain ⟨r, t, hr, ht, he⟩ := haddress
      have hfind : S.objects.find? (fun v => v.pointerSelf == address) = some r.value := by
        rw [← hvalue, hr]
        rfl
      exact ⟨r, t, hr, ht, he, h r.value hfind (Option.isSome_iff_exists.mpr ⟨t, ht⟩)⟩

/-- A tank behind a building whose type class is not among the types of the initial state. -/
def staleType : Storage where
  objects :=
    [{ pointerSelf := 16, pointerTechnotypeclass := 99 },
      { pointerSelf := 32, pointerTechnotypeclass := 64 }]
  objectTypes := [⟨⟨3, 0x28⟩, 64⟩]

theorem staleType_lookups_disagree :
    ¬Agree (getObjectEntryPred staleType (hasAddress 32) []).2
      (getObjectEntry staleType 32 []).2 := by
  decide

/-- Where every object has its type class, a search by predicate throws only if nothing matches. -/
theorem getObjectEntryPred_ok_of_resolved (S : Storage) {pred : ObjectEntry → Bool}
    {p : ObjectMessage → Bool} (hpred : ∀ v t, pred ⟨some v, some t⟩ = p v.value) (tc : TcCache)
    (hresolved : ∀ v ∈ S.objects, (typeClass? S tc v).isSome) :
    (∃ e, (getObjectEntryPred S pred tc).2 = .ok e) ↔ ∃ v ∈ S.objects, p v := by
  have hvalue := firstFrom_value p S.objects 0
  constructor
  · intro h
    obtain ⟨e, he⟩ := h
    obtain ⟨r, t, hr, -⟩ := (getObjectEntryPred_ok_iff S hpred tc e).mp he
    rw [hr] at hvalue
    exact ⟨r.value, List.mem_of_find?_eq_some hvalue.symm, List.find?_some hvalue.symm⟩
  · intro h
    obtain ⟨v, hv, hp⟩ := h
    cases hr : firstFrom p S.objects 0 with
    | none =>
      rw [hr] at hvalue
      exact absurd hp (List.find?_eq_none.mp hvalue.symm v hv)
    | some r =>
      rw [hr] at hvalue
      have hmem := List.mem_of_find?_eq_some hvalue.symm
      obtain ⟨t, ht⟩ := Option.isSome_iff_exists.mp (hresolved r.value hmem)
      exact ⟨⟨some r, some t⟩, (getObjectEntryPred_ok_iff S hpred tc _).mpr
        ⟨r, t, hr, ht, rfl, fun w hw => hresolved w (List.takeWhile_subset _ hw)⟩⟩

/-- The lookup of `UnitOrderCtx::perform`. -/
theorem unitPred_lookup_ok_of_resolved (S : Storage) (k : UInt32) (tc : TcCache)
    (hresolved : ∀ v ∈ S.objects, (typeClass? S tc v).isSome) :
    (∃ e, (getObjectEntryPred S (unitPred k) tc).2 = .ok e) ↔
      ∃ v ∈ S.objects, v.pointerSelf = k ∧ v.inLimbo = false := by
  rw [getObjectEntryPred_ok_of_resolved S (p := fun v => v.pointerSelf == k && !v.inLimbo)
    (fun _ _ => rfl) tc hresolved]
  simp only [Bool.and_eq_true, beq_iff_eq, Bool.not_eq_true']

end Ra2yrcpp.StateContext
