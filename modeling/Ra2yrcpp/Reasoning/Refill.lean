import Mathlib.Data.List.Basic

/-!
# Lists refilled in place

A list of messages is brought to the length of a source and then written entry by entry, each entry
over what it held before.  The writer of an entry may throw, and what it wrote until then stays.
-/

namespace Ra2yrcpp.Reasoning

variable {α β : Type*}

/-- Clear the list and fill it with new entries, unless it has the length already. -/
def resizeEmpty (new : β) (n : Nat) (dst : List β) : List β :=
  if dst.length ≠ n then List.replicate n new else dst

/-- `for (i...) write(src[i], dst.at(i))`, with the rest `src` of the source to go.  `write` returns
the entry and whether it returned; an `at` out of range ends the process. -/
def refillFrom (write : α → β → β × Bool) : List α → Nat → List β → Option (List β × Bool)
  | [], _, dst => some (dst, true)
  | x :: src, i, dst =>
    match dst[i]? with
    | none => none
    | some T =>
      let (T, ok) := write x T
      if ok then refillFrom write src (i + 1) (dst.set i T) else some (dst.set i T, false)

/-- A loop whose writers do not throw, on a list of the right length. -/
def refillAll (f : α → β → β) (new : β) (src : List α) (dst : List β) : Option (List β) :=
  (refillFrom (fun x T => (f x T, true)) src 0 (resizeEmpty new src.length dst)).map Prod.fst

/-- The entries one by one: from the first one on whose writer throws, the list is as it was. -/
def refilled (write : α → β → β × Bool) : List α → List β → List β × Bool
  | x :: src, T :: dst =>
    if (write x T).2 then
      ((write x T).1 :: (refilled write src dst).1, (refilled write src dst).2)
    else ((write x T).1 :: dst, false)
  | _, dst => (dst, true)

variable {write : α → β → β × Bool}

theorem length_resizeEmpty (new : β) (n : Nat) (dst : List β) :
    (resizeEmpty new n dst).length = n := by
  unfold resizeEmpty
  split
  · exact List.length_replicate
  · next h => exact not_not.mp h

-- induction on the rest of the source; the entries before `i` are done
theorem refillFrom_eq (src : List α) (i : Nat) (dst : List β) (hlen : dst.length = i + src.length) :
    refillFrom write src i dst =
      some (dst.take i ++ (refilled write src (dst.drop i)).1,
        (refilled write src (dst.drop i)).2) := by
  induction src generalizing i dst with
  | nil => simp [refillFrom, refilled]
  | cons x src ih =>
    rw [List.length_cons] at hlen
    have hi : i < dst.length := by omega
    have hdrop : dst.drop i = dst[i] :: dst.drop (i + 1) := List.drop_eq_getElem_cons hi
    rw [refillFrom, List.getElem?_eq_getElem hi, hdrop, refilled]
    dsimp only
    have hset : (dst.set i (write x dst[i]).1).take i = dst.take i := by
      rw [List.take_set, List.set_eq_of_length_le (by rw [List.length_take]; omega)]
    cases hok : (write x dst[i]).2 with
    | true =>
      rw [if_pos rfl, if_pos rfl, ih (i + 1) _ (by rw [List.length_set]; omega),
        List.drop_set_of_lt (by omega),
        List.take_succ_eq_append_getElem (by rw [List.length_set]; exact hi),
        List.getElem_set_self, hset, List.append_assoc]
      rfl
    | false =>
      rw [if_neg (by decide), if_neg (by decide), List.set_eq_take_append_cons_drop, if_pos hi]

/-- No writer throws: every entry is written. -/
theorem refilled_of_returns {src : List α} {dst : List β} (hlen : dst.length = src.length)
    (hok : ∀ x ∈ src, ∀ T, (write x T).2 = true) :
    refilled write src dst = (List.zipWith (fun x T => (write x T).1) src dst, true) := by
  induction src generalizing dst with
  | nil =>
    obtain rfl := List.eq_nil_of_length_eq_zero hlen
    rfl
  | cons x src ih =>
    cases dst with
    | nil => cases hlen
    | cons T dst =>
      rw [refilled, if_pos (hok x List.mem_cons_self T),
        ih (Nat.succ.inj hlen) fun y hy => hok y (List.mem_cons_of_mem _ hy)]
      rfl

/-- Entries of which nothing is left, whatever they were. -/
theorem zipWith_overwrite {f : α → β → β} (new : β) {src : List α} {dst : List β}
    (hlen : dst.length = src.length) (hf : ∀ x ∈ src, ∀ T, f x T = f x new) :
    List.zipWith f src dst = src.map fun x => f x new := by
  induction src generalizing dst with
  | nil => rfl
  | cons x src ih =>
    cases dst with
    | nil => cases hlen
    | cons T dst =>
      rw [List.zipWith_cons_cons, List.map_cons, hf x List.mem_cons_self,
        ih (Nat.succ.inj hlen) fun y hy => hf y (List.mem_cons_of_mem _ hy)]

/-- Writers that leave nothing of an entry make the list anew. -/
theorem refillAll_eq {f : α → β → β} {new : β} (hover : ∀ x T, f x T = f x new) (src : List α)
    (dst : List β) : refillAll f new src dst = some (src.map fun x => f x new) := by
  have hlen := length_resizeEmpty new src.length dst
  unfold refillAll
  rw [refillFrom_eq src 0 _ (by omega), List.take_zero, List.nil_append, List.drop_zero,
    refilled_of_returns hlen fun _ _ _ => rfl, Option.map_some,
    zipWith_overwrite new hlen fun x _ T => hover x T]

/-- The list is filled to the end exactly when no writer throws on its entry. -/
theorem refilled_snd (new : β) {src : List α} {dst : List β} (hlen : dst.length = src.length)
    (hsame : ∀ x T, (write x T).2 = (write x new).2) :
    (refilled write src dst).2 = src.all fun x => (write x new).2 := by
  induction src generalizing dst with
  | nil => rfl
  | cons x src ih =>
    cases dst with
    | nil => cases hlen
    | cons T dst =>
      rw [refilled, List.all_cons, ← hsame x T, ← ih (Nat.succ.inj hlen)]
      cases (write x T).2 <;> rfl

end Ra2yrcpp.Reasoning
