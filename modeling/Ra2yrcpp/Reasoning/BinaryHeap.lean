import Mathlib.Data.List.Basic

/-!
# The binary heap of `std::priority_queue`

`push_heap` and `pop_heap` as libstdc++ writes them, over a list and an arbitrary comparator.  The
comparator may be strict or not: all that is asked of it is `Ranks`, that its answers agree with
some total preorder.  The results are the two a priority queue is used for: both operations permute
the elements, and the first element is least in the preorder.
-/

namespace Ra2yrcpp.Reasoning.Heap

variable {α : Type*}

/-- `__push_heap` with `topIndex = 0`: move parents down into the hole while the comparator asks for
it, then drop `value` into the hole.  The first argument bounds the number of rounds. -/
def siftUp (comp : α → α → Bool) (value : α) : Nat → Nat → List α → List α
  | 0, hole, l => l.set hole value
  | fuel + 1, hole, l =>
    match l[(hole - 1) / 2]? with
    | none => l.set hole value
    | some p =>
      if 0 < hole ∧ comp p value then siftUp comp value fuel ((hole - 1) / 2) (l.set hole p)
      else l.set hole value

/-- `push_heap` after `push_back`. -/
def push (comp : α → α → Bool) (l : List α) (value : α) : List α :=
  siftUp comp value l.length l.length (l ++ [value])

/-- The child that `__adjust_heap` moves into the hole, `none` at a leaf. -/
def promoted (comp : α → α → Bool) (l : List α) (hole : Nat) : Option Nat :=
  match l[2 * hole + 1]?, l[2 * hole + 2]? with
  | some left, some right => some (if comp right left then 2 * hole + 1 else 2 * hole + 2)
  | some _, none => some (2 * hole + 1)
  | none, _ => none

/-- The downward loop of `__adjust_heap`: the hole travels to a leaf.  It answers the leaf and the
list it leaves behind. -/
def siftDown (comp : α → α → Bool) : Nat → Nat → List α → Nat × List α
  | 0, hole, l => (hole, l)
  | fuel + 1, hole, l =>
    match promoted comp l hole with
    | none => (hole, l)
    | some child =>
      match l[child]? with
      | none => (hole, l)
      | some c => siftDown comp fuel child (l.set hole c)

/-- `pop_heap` followed by `pop_back`: the last element is sifted in from the root. -/
def pop (comp : α → α → Bool) (l : List α) : List α :=
  match l.getLast? with
  | none => []
  | some value =>
    if l.length ≤ 1 then []
    else
      let (hole, m) := siftDown comp l.length 0 l.dropLast
      siftUp comp value hole hole m

/-- The comparator answers in agreement with the preorder `le`, in which least comes out first.
Both `rank b < rank a` and `rank b ≤ rank a` rank by `rank a ≤ rank b`. -/
structure Ranks (comp : α → α → Bool) (le : α → α → Prop) : Prop where
  refl : ∀ a, le a a
  trans : ∀ {a b c}, le a b → le b c → le a c
  below : ∀ {a b}, comp a b = true → le b a
  above : ∀ {a b}, comp a b = false → le a b

/-- Every element is at or after its parent. -/
def IsHeap (le : α → α → Prop) (l : List α) : Prop :=
  ∀ i p c, 0 < i → l[(i - 1) / 2]? = some p → l[i]? = some c → le p c

variable {comp : α → α → Bool} {le : α → α → Prop}

/-! ## Order -/

/-- What `siftUp` needs: pairs off the hole are in order, and the hole's children are at or after
both `value` and the hole's parent. -/
structure UpOrder (le : α → α → Prop) (value : α) (hole : Nat) (l : List α) : Prop where
  off : ∀ i p c, 0 < i → i ≠ hole → (i - 1) / 2 ≠ hole →
    l[(i - 1) / 2]? = some p → l[i]? = some c → le p c
  value_le : ∀ i c, 0 < i → (i - 1) / 2 = hole → l[i]? = some c → le value c
  parent_le : ∀ i p c, 0 < i → (i - 1) / 2 = hole → 0 < hole →
    l[(hole - 1) / 2]? = some p → l[i]? = some c → le p c

theorem UpOrder.move (hr : Ranks comp le) {value p : α} {hole : Nat} {l : List α}
    (h : UpOrder le value hole l) (hpos : 0 < hole) (hlt : hole < l.length)
    (hp : l[(hole - 1) / 2]? = some p) (hcomp : comp p value = true) :
    UpOrder le value ((hole - 1) / 2) (l.set hole p) := by
  have hvp : le value p := hr.below hcomp
  have hne : (hole - 1) / 2 ≠ hole := by omega
  -- a sibling of the hole is at or after their common parent
  have hsib : ∀ i c, 0 < i → i ≠ hole → (i - 1) / 2 = (hole - 1) / 2 →
      l[i]? = some c → le p c := by
    intro i c hi hih hpi hc
    exact h.off i p c hi hih (by omega) (hpi ▸ hp) hc
  refine ⟨?_, ?_, ?_⟩
  · intro i q c hi hip hpp hq hc
    have hih : i ≠ hole := fun e => hpp (e ▸ rfl)
    rw [List.getElem?_set_ne (Ne.symm hih)] at hc
    by_cases hph : (i - 1) / 2 = hole
    · rw [hph, List.getElem?_set_self hlt, Option.some.injEq] at hq
      exact hq ▸ h.parent_le i p c hi hph hpos hp hc
    · rw [List.getElem?_set_ne (Ne.symm hph)] at hq
      exact h.off i q c hi hih hph hq hc
  · intro i c hi hpi hc
    by_cases hih : i = hole
    · rw [hih, List.getElem?_set_self hlt, Option.some.injEq] at hc
      exact hc ▸ hvp
    · rw [List.getElem?_set_ne (Ne.symm hih)] at hc
      exact hr.trans hvp (hsib i c hi hih hpi hc)
  · intro i q c hi hpi hpos' hq hc
    rw [List.getElem?_set_ne (by omega)] at hq
    have hqp : le q p := h.off ((hole - 1) / 2) q p hpos' hne (by omega) hq hp
    by_cases hih : i = hole
    · rw [hih, List.getElem?_set_self hlt, Option.some.injEq] at hc
      exact hc ▸ hqp
    · rw [List.getElem?_set_ne (Ne.symm hih)] at hc
      exact hr.trans hqp (hsib i c hi hih hpi hc)

theorem UpOrder.finish {value : α} {hole : Nat} {l : List α} (h : UpOrder le value hole l)
    (hlt : hole < l.length)
    (hstop : 0 < hole → ∀ p, l[(hole - 1) / 2]? = some p → le p value) :
    IsHeap le (l.set hole value) := by
  intro i p c hi hp hc
  by_cases hih : i = hole
  · subst hih
    rw [List.getElem?_set_self hlt, Option.some.injEq] at hc
    rw [List.getElem?_set_ne (by omega)] at hp
    exact hc ▸ hstop hi p hp
  · rw [List.getElem?_set_ne (Ne.symm hih)] at hc
    by_cases hph : (i - 1) / 2 = hole
    · rw [hph, List.getElem?_set_self hlt, Option.some.injEq] at hp
      exact hp ▸ h.value_le i c hi hph hc
    · rw [List.getElem?_set_ne (Ne.symm hph)] at hp
      exact h.off i p c hi hih hph hp hc

theorem siftUp_isHeap (hr : Ranks comp le) {value : α} {fuel hole : Nat} {l : List α}
    (h : UpOrder le value hole l) (hlt : hole < l.length) (hfuel : hole ≤ fuel) :
    IsHeap le (siftUp comp value fuel hole l) := by
  induction fuel generalizing hole l with
  | zero => exact h.finish hlt (fun hpos => absurd hpos (by omega))
  | succ fuel ih =>
    have hparent : (hole - 1) / 2 < l.length := by omega
    obtain ⟨p, hp⟩ : ∃ p, l[(hole - 1) / 2]? = some p := ⟨_, List.getElem?_eq_getElem hparent⟩
    rw [siftUp, hp]
    dsimp only
    split
    · rename_i hc
      apply ih (h.move hr hc.1 hlt hp hc.2)
      · rw [List.length_set]; exact hparent
      · omega
    · rename_i hc
      apply h.finish hlt
      intro hpos q hq
      rw [hp, Option.some.injEq] at hq
      exact hq ▸ hr.above (by simpa [hpos] using hc)

/-! ## The way down -/

theorem promoted_spec (hr : Ranks comp le) {l : List α} {hole child : Nat}
    (h : promoted comp l hole = some child) :
    (child - 1) / 2 = hole ∧ 0 < child ∧ ∃ c, l[child]? = some c ∧
      ∀ i d, 0 < i → (i - 1) / 2 = hole → l[i]? = some d → le c d := by
  -- a child of the hole is the left or the right one
  have hcase : ∀ i, 0 < i → (i - 1) / 2 = hole → i = 2 * hole + 1 ∨ i = 2 * hole + 2 := by
    intro i hi hp; omega
  unfold promoted at h
  split at h
  · rename_i left right hl hrt
    rw [Option.some.injEq] at h
    split at h
    · rename_i hc
      subst h
      refine ⟨by omega, by omega, left, hl, fun i d hi hp hd => ?_⟩
      obtain rfl | rfl := hcase i hi hp
      · rw [hl, Option.some.injEq] at hd; exact hd ▸ hr.refl left
      · rw [hrt, Option.some.injEq] at hd; exact hd ▸ hr.below hc
    · rename_i hc
      subst h
      refine ⟨by omega, by omega, right, hrt, fun i d hi hp hd => ?_⟩
      obtain rfl | rfl := hcase i hi hp
      · rw [hl, Option.some.injEq] at hd
        exact hd ▸ hr.above (by simpa using hc)
      · rw [hrt, Option.some.injEq] at hd; exact hd ▸ hr.refl right
  · rename_i left hl hrt
    rw [Option.some.injEq] at h
    subst h
    refine ⟨by omega, by omega, left, hl, fun i d hi hp hd => ?_⟩
    obtain rfl | rfl := hcase i hi hp
    · rw [hl, Option.some.injEq] at hd; exact hd ▸ hr.refl left
    · rw [hrt] at hd; cases hd
  · cases h

/-- Overwriting the hole by its least child leaves a heap: the old value stays behind as a
duplicate further down. -/
theorem IsHeap.promote (hr : Ranks comp le) {l : List α} (h : IsHeap le l) {hole child : Nat}
    {c : α} (hchild : (child - 1) / 2 = hole) (hpos : 0 < child) (hc : l[child]? = some c)
    (hmin : ∀ i d, 0 < i → (i - 1) / 2 = hole → l[i]? = some d → le c d) :
    IsHeap le (l.set hole c) := by
  have hlt : hole < l.length := by
    have := (List.getElem?_eq_some_iff.mp hc).1
    omega
  obtain ⟨x, hx⟩ : ∃ x, l[hole]? = some x := ⟨_, List.getElem?_eq_getElem hlt⟩
  have hxc : le x c := h child x c hpos (hchild ▸ hx) hc
  intro i p d hi hp hd
  by_cases hih : i = hole
  · subst hih
    rw [List.getElem?_set_self hlt, Option.some.injEq] at hd
    rw [List.getElem?_set_ne (by omega)] at hp
    exact hd ▸ hr.trans (h i p x hi hp hx) hxc
  · rw [List.getElem?_set_ne (Ne.symm hih)] at hd
    by_cases hph : (i - 1) / 2 = hole
    · rw [hph, List.getElem?_set_self hlt, Option.some.injEq] at hp
      exact hp ▸ hmin i d hi hph hd
    · rw [List.getElem?_set_ne (Ne.symm hph)] at hp
      exact h i p d hi hp hd

theorem promoted_none {l : List α} {hole : Nat} (h : promoted comp l hole = none) :
    l.length ≤ 2 * hole + 1 := by
  unfold promoted at h
  split at h
  · cases h
  · cases h
  · rename_i hl
    exact List.getElem?_eq_none_iff.mp hl

/-- The hole ends at a leaf of a heap of the same size. -/
theorem siftDown_spec (hr : Ranks comp le) (fuel hole : Nat) {l : List α} (h : IsHeap le l)
    (hlt : hole < l.length) (hfuel : l.length ≤ fuel + hole) :
    IsHeap le (siftDown comp fuel hole l).2 ∧
      (siftDown comp fuel hole l).2.length = l.length ∧
      (siftDown comp fuel hole l).1 < l.length ∧
      l.length ≤ 2 * (siftDown comp fuel hole l).1 + 1 := by
  induction fuel generalizing hole l with
  | zero => omega
  | succ fuel ih =>
    rw [siftDown]
    cases hpr : promoted comp l hole with
    | none => exact ⟨h, rfl, hlt, promoted_none hpr⟩
    | some child =>
      obtain ⟨hchild, hpos, c, hc, hmin⟩ := promoted_spec hr hpr
      have hcl : child < l.length := (List.getElem?_eq_some_iff.mp hc).1
      dsimp only
      rw [hc]
      dsimp only
      have hnext := ih child (h.promote hr hchild hpos hc hmin)
        (by rw [List.length_set]; exact hcl) (by rw [List.length_set]; omega)
      rwa [List.length_set] at hnext

/-! ## Contents -/

/-- Moving an element into the hole and the hole to where it was only swaps two positions. -/
theorem set_set_perm_set {l : List α} {i j : Nat} {p v : α} (hi : i < l.length)
    (hj : l[j]? = some p) (hij : i ≠ j) : ((l.set i p).set j v).Perm (l.set i v) := by
  obtain ⟨hjl, rfl⟩ := List.getElem?_eq_some_iff.mp hj
  have hi' : i < (l.set i v).length := by rw [List.length_set]; exact hi
  have hj' : j < (l.set i v).length := by rw [List.length_set]; exact hjl
  have h := List.set_set_perm hi' hj'
  rwa [List.getElem_set_self, List.getElem_set_ne hij, List.set_set] at h

theorem siftUp_perm (comp : α → α → Bool) (value : α) (fuel : Nat) {hole : Nat} {l : List α}
    (hlt : hole < l.length) :
    (siftUp comp value fuel hole l).Perm (l.set hole value) := by
  induction fuel generalizing hole l with
  | zero => exact List.Perm.refl _
  | succ fuel ih =>
    rw [siftUp]
    split
    · exact List.Perm.refl _
    · rename_i p hp
      split
      · rename_i hc
        have hparent : (hole - 1) / 2 < (l.set hole p).length := by rw [List.length_set]; omega
        exact (ih hparent).trans (set_set_perm_set hlt hp (by omega))
      · exact List.Perm.refl _

theorem siftDown_perm (hr : Ranks comp le) (value : α) (fuel : Nat) {hole : Nat} {l : List α}
    (hlt : hole < l.length) :
    ((siftDown comp fuel hole l).2.set (siftDown comp fuel hole l).1 value).Perm
      (l.set hole value) := by
  induction fuel generalizing hole l with
  | zero => exact List.Perm.refl _
  | succ fuel ih =>
    rw [siftDown]
    cases hpr : promoted comp l hole with
    | none => exact List.Perm.refl _
    | some child =>
      obtain ⟨hchild, hpos, c, hc, -⟩ := promoted_spec hr hpr
      dsimp only
      rw [hc]
      dsimp only
      have hcl : child < (l.set hole c).length := by
        rw [List.length_set]; exact (List.getElem?_eq_some_iff.mp hc).1
      exact (ih hcl).trans (set_set_perm_set hlt hc (by omega))

/-! ## The two operations -/

theorem push_perm (l : List α) (value : α) : (push comp l value).Perm (value :: l) := by
  have hlt : l.length < (l ++ [value]).length := by simp
  have h := siftUp_perm comp value l.length hlt
  rw [List.set_append_right _ _ (Nat.le_refl _), Nat.sub_self, List.set_cons_zero] at h
  exact h.trans (List.perm_append_singleton value l)

theorem push_isHeap (hr : Ranks comp le) {l : List α} (h : IsHeap le l) (value : α) :
    IsHeap le (push comp l value) := by
  apply siftUp_isHeap hr _ (by simp) (Nat.le_refl _)
  -- the hole is the last position: it has no children
  have hleaf : ∀ i c, (i - 1) / 2 = l.length → 0 < i → (l ++ [value])[i]? = some c → False := by
    intro i c hp hi hc
    have hlen := (List.getElem?_eq_some_iff.mp hc).1
    rw [List.length_append, List.length_singleton] at hlen
    omega
  refine ⟨?_, fun i c hi hp hc => (hleaf i c hp hi hc).elim,
    fun i p c hi hp _ _ hc => (hleaf i c hp hi hc).elim⟩
  intro i p c hi hil hpl hp hc
  have hlen := (List.getElem?_eq_some_iff.mp hc).1
  rw [List.length_append, List.length_singleton] at hlen
  rw [List.getElem?_append_left (by omega)] at hp hc
  exact h i p c hi hp hc

theorem IsHeap.dropLast {l : List α} (h : IsHeap le l) : IsHeap le l.dropLast := by
  intro i p c hi hp hc
  have hlen := (List.getElem?_eq_some_iff.mp hc).1
  rw [List.length_dropLast] at hlen
  rw [List.dropLast_eq_take, List.getElem?_take, if_pos (by omega)] at hp hc
  exact h i p c hi hp hc

/-- `pop` unfolded on a list with at least two elements. -/
theorem pop_cons_concat (top value : α) (mid : List α) :
    pop comp (top :: mid ++ [value]) =
      siftUp comp value (siftDown comp (mid.length + 2) 0 (top :: mid)).1
        (siftDown comp (mid.length + 2) 0 (top :: mid)).1
        (siftDown comp (mid.length + 2) 0 (top :: mid)).2 := by
  have hlast : (top :: mid ++ [value]).getLast? = some value := List.getLast?_concat
  have hdrop : (top :: mid ++ [value]).dropLast = top :: mid := List.dropLast_concat
  have hlen : (top :: mid ++ [value]).length = mid.length + 2 := by simp
  unfold pop
  rw [hlast]
  dsimp only
  rw [if_neg (by omega), hdrop, hlen]

/-- A list is empty, a singleton, or has a first and a last element. -/
theorem cases_first_last (l : List α) :
    l = [] ∨ (∃ a, l = [a]) ∨ ∃ top mid value, l = top :: mid ++ [value] := by
  cases l with
  | nil => exact Or.inl rfl
  | cons top rest =>
    right
    rcases List.eq_nil_or_concat rest with rfl | ⟨mid, value, rfl⟩
    · exact Or.inl ⟨top, rfl⟩
    · exact Or.inr ⟨top, mid, value, by simp⟩

/-- `pop` removes exactly the first element. -/
theorem pop_perm (hr : Ranks comp le) (top : α) {rest : List α} (h : IsHeap le (top :: rest)) :
    (pop comp (top :: rest)).Perm rest := by
  rcases List.eq_nil_or_concat rest with rfl | ⟨mid, value, rfl⟩
  · exact List.Perm.refl _
  · rw [List.concat_eq_append, ← List.cons_append, pop_cons_concat]
    have hheap : IsHeap le (top :: mid) := by
      have := h.dropLast
      rwa [List.concat_eq_append, ← List.cons_append, List.dropLast_concat] at this
    have hroot : 0 < (top :: mid).length := by simp
    obtain ⟨-, hlen, hlt, -⟩ := siftDown_spec hr (mid.length + 2) 0 hheap hroot (by simp)
    have hup := siftUp_perm comp value (siftDown comp (mid.length + 2) 0 (top :: mid)).1 (hlen ▸ hlt)
    have hdown := siftDown_perm hr value (mid.length + 2) hroot
    rw [List.set_cons_zero] at hdown
    exact hup.trans (hdown.trans (List.perm_append_singleton value mid).symm)

theorem pop_isHeap (hr : Ranks comp le) {l : List α} (h : IsHeap le l) : IsHeap le (pop comp l) := by
  rcases cases_first_last l with rfl | ⟨a, rfl⟩ | ⟨top, mid, value, rfl⟩
  · exact h
  · intro i p c _ hp _
    exact absurd hp (by simp [pop])
  · rw [pop_cons_concat]
    have hheap : IsHeap le (top :: mid) := by
      have := h.dropLast
      rwa [List.dropLast_concat] at this
    obtain ⟨hdown, hlen, hlt, hleaf⟩ := siftDown_spec hr (mid.length + 2) 0 hheap
      (by simp) (by simp)
    apply siftUp_isHeap hr _ (hlen ▸ hlt) (Nat.le_refl _)
    -- a leaf has no children, so only the pairs off the hole are left
    have hno : ∀ i c, 0 < i →
        (i - 1) / 2 = (siftDown comp (mid.length + 2) 0 (top :: mid)).1 →
        (siftDown comp (mid.length + 2) 0 (top :: mid)).2[i]? = some c → False := by
      intro i c hi hp hc
      have := (List.getElem?_eq_some_iff.mp hc).1
      omega
    exact ⟨fun i p c hi _ _ hp hc => hdown i p c hi hp hc,
      fun i c hi hp hc => (hno i c hi hp hc).elim,
      fun i p c hi hp _ _ hc => (hno i c hi hp hc).elim⟩

/-- The first element of a heap is least. -/
theorem IsHeap.top_le (hr : Ranks comp le) {top : α} {rest : List α} (h : IsHeap le (top :: rest)) :
    ∀ a ∈ top :: rest, le top a := by
  intro a ha
  obtain ⟨i, hi⟩ := List.mem_iff_getElem?.mp ha
  clear ha
  induction i using Nat.strongRecOn generalizing a with
  | ind i ih =>
    rcases Nat.eq_zero_or_pos i with rfl | hpos
    · rw [List.getElem?_cons_zero, Option.some.injEq] at hi
      exact hi ▸ hr.refl top
    · have hlen := (List.getElem?_eq_some_iff.mp hi).1
      obtain ⟨p, hp⟩ : ∃ p, (top :: rest)[(i - 1) / 2]? = some p :=
        ⟨_, List.getElem?_eq_getElem (by omega)⟩
      exact hr.trans (ih ((i - 1) / 2) (by omega) p hp) (h i p a hpos hp hi)

theorem isHeap_nil : IsHeap le ([] : List α) := by
  intro i p c _ _ hc
  simp at hc

/-- Being a heap only looks at the order of the elements that are there. -/
theorem IsHeap.congr {le' : α → α → Prop} {l : List α} (h : IsHeap le l)
    (himp : ∀ a ∈ l, ∀ b ∈ l, le a b → le' a b) : IsHeap le' l :=
  fun i p c hi hp hc =>
    himp p (List.mem_of_getElem? hp) c (List.mem_of_getElem? hc) (h i p c hi hp hc)

/-! ## The comparator on the elements that are there -/

variable {comp' : α → α → Bool}

theorem siftUp_congr (value : α) (fuel : Nat) {hole : Nat} {l : List α}
    (h : ∀ p ∈ l, comp p value = comp' p value) :
    siftUp comp value fuel hole l = siftUp comp' value fuel hole l := by
  induction fuel generalizing hole l with
  | zero => rfl
  | succ fuel ih =>
    rw [siftUp, siftUp]
    cases hp : l[(hole - 1) / 2]? with
    | none => rfl
    | some p =>
      have hmem : p ∈ l := List.mem_of_getElem? hp
      have hset : ∀ q ∈ l.set hole p, comp q value = comp' q value := by
        intro q hq
        rcases List.mem_or_eq_of_mem_set hq with hq | rfl
        · exact h q hq
        · exact h q hmem
      dsimp only
      rw [h p hmem, ih hset]

theorem promoted_congr {l : List α} (h : ∀ a ∈ l, ∀ b ∈ l, comp a b = comp' a b) (hole : Nat) :
    promoted comp l hole = promoted comp' l hole := by
  unfold promoted
  split
  · rename_i left right hl hr
    rw [h right (List.mem_of_getElem? hr) left (List.mem_of_getElem? hl)]
  · rfl
  · rfl

theorem mem_siftDown (fuel : Nat) {hole : Nat} {l : List α} {a : α}
    (ha : a ∈ (siftDown comp fuel hole l).2) : a ∈ l := by
  induction fuel generalizing hole l with
  | zero => exact ha
  | succ fuel ih =>
    rw [siftDown] at ha
    cases hpr : promoted comp l hole with
    | none =>
      rw [hpr] at ha
      exact ha
    | some child =>
      rw [hpr] at ha
      dsimp only at ha
      cases hc : l[child]? with
      | none =>
        rw [hc] at ha
        exact ha
      | some c =>
        rw [hc] at ha
        rcases List.mem_or_eq_of_mem_set (ih ha) with hmem | rfl
        · exact hmem
        · exact List.mem_of_getElem? hc

theorem siftDown_congr (fuel : Nat) {hole : Nat} {l : List α}
    (h : ∀ a ∈ l, ∀ b ∈ l, comp a b = comp' a b) :
    siftDown comp fuel hole l = siftDown comp' fuel hole l := by
  induction fuel generalizing hole l with
  | zero => rfl
  | succ fuel ih =>
    rw [siftDown, siftDown, promoted_congr h hole]
    cases promoted comp' l hole with
    | none => rfl
    | some child =>
      dsimp only
      cases hc : l[child]? with
      | none => rfl
      | some c =>
        have hsub : ∀ a ∈ l.set hole c, a ∈ l := by
          intro a ha
          rcases List.mem_or_eq_of_mem_set ha with ha | rfl
          · exact ha
          · exact List.mem_of_getElem? hc
        exact ih fun a ha b hb => h a (hsub a ha) b (hsub b hb)

theorem push_congr {l : List α} {value : α}
    (h : ∀ a ∈ value :: l, ∀ b ∈ value :: l, comp a b = comp' a b) :
    push comp l value = push comp' l value := by
  refine siftUp_congr value _ fun p hp => ?_
  have hmem : p ∈ value :: l := (List.perm_append_singleton value l).mem_iff.mp hp
  exact h p hmem value List.mem_cons_self

theorem pop_congr {l : List α} (h : ∀ a ∈ l, ∀ b ∈ l, comp a b = comp' a b) :
    pop comp l = pop comp' l := by
  unfold pop
  cases hv : l.getLast? with
  | none => rfl
  | some value =>
    have hvalue : value ∈ l := List.mem_of_getLast? hv
    have hdrop : ∀ a ∈ l.dropLast, a ∈ l := fun a ha =>
      (List.dropLast_sublist l).subset ha
    have hdown : siftDown comp l.length 0 l.dropLast = siftDown comp' l.length 0 l.dropLast :=
      siftDown_congr l.length fun a ha b hb => h a (hdrop a ha) b (hdrop b hb)
    dsimp only
    rw [hdown]
    split
    · rfl
    · exact siftUp_congr value _ fun p hp => h p (hdrop p (mem_siftDown _ hp)) value hvalue

/-- An element that the comparator puts before everything in the heap goes to the root. -/
theorem siftUp_head (value : α) (fuel : Nat) {hole : Nat} {l : List α} (hlt : hole < l.length)
    (hfuel : hole ≤ fuel) (h : ∀ p ∈ l, comp p value = true) :
    (siftUp comp value fuel hole l).head? = some value := by
  induction fuel generalizing hole l with
  | zero =>
    obtain rfl : hole = 0 := by omega
    rw [siftUp, List.head?_eq_getElem?, List.getElem?_set_self hlt]
  | succ fuel ih =>
    obtain ⟨p, hp⟩ : ∃ p, l[(hole - 1) / 2]? = some p :=
      ⟨_, List.getElem?_eq_getElem (by omega)⟩
    have hmem : p ∈ l := List.mem_of_getElem? hp
    rw [siftUp, hp]
    dsimp only
    rcases Nat.eq_zero_or_pos hole with rfl | hpos
    · rw [if_neg (by omega), List.head?_eq_getElem?, List.getElem?_set_self hlt]
    · rw [if_pos ⟨hpos, h p hmem⟩]
      refine ih (by rw [List.length_set]; omega) (by omega) fun q hq => ?_
      rcases List.mem_or_eq_of_mem_set hq with hq | rfl
      · exact h q hq
      · exact h q hmem

theorem push_head {l : List α} {value : α} (h : ∀ p ∈ value :: l, comp p value = true) :
    (push comp l value).head? = some value :=
  siftUp_head value l.length (by simp) (Nat.le_refl _) fun p hp =>
    h p ((List.perm_append_singleton value l).mem_iff.mp hp)

end Ra2yrcpp.Reasoning.Heap
