import Mathlib.Data.List.Basic
import Mathlib.Data.List.Forall2
import Mathlib.Data.List.Nodup
import Mathlib.Data.List.Range
import Mathlib.Logic.Function.Basic

/-!
# Snapshots and their differences

A table is sampled row by row, and of each sample only the rows that changed are sent.  This file has
the loops that walk the table (with a stride, and in row-major order), the list of changed rows, and
the replay of such lists at the other end.
-/

namespace Ra2yrcpp.Reasoning

variable {α β ι κ : Type*}

/-! ## Loops -/

/-- The values of `i` in `for (i = start; i < stop; i += step)`. -/
def forLoop (start stop step : Nat) : List Nat :=
  List.range' start ((stop - start + (step - 1)) / step) step

/-- A loop whose stop is a whole number of strides away. -/
theorem forLoop_mul (start count step : Nat) (hstep : 0 < step) :
    forLoop start (start + count * step) step = List.range' start count step := by
  unfold forLoop
  have hsub : start + count * step - start + (step - 1) = step - 1 + step * count := by
    rw [Nat.mul_comm]
    omega
  rw [hsub, Nat.add_mul_div_left _ _ hstep, Nat.div_eq_of_lt (by omega), Nat.zero_add]

theorem forLoop_self (start step : Nat) (hstep : 0 < step) : forLoop start start step = [] := by
  simpa using forLoop_mul start 0 step hstep

/-- A loop with less than one stride to go runs once. -/
theorem forLoop_lt {start stop step : Nat} (hlt : start < stop) (hle : stop ≤ start + step) :
    forLoop start stop step = [start] := by
  unfold forLoop
  have hcount : (stop - start + (step - 1)) / step = 1 := by
    apply Nat.div_eq_of_lt_le <;> omega
  rw [hcount]
  rfl

/-- What the body takes from one value of `i` to the next holds after the loop. -/
theorem foldl_range'_inv (Inv : Nat → β → Prop) {f : β → Nat → β} {count step : Nat} :
    ∀ {start : Nat} {b : β}, Inv start b →
      (∀ i b, i + step ≤ start + count * step → Inv i b → Inv (i + step) (f b i)) →
      Inv (start + count * step) ((List.range' start count step).foldl f b) := by
  induction count with
  | zero =>
    intro start b h0 _
    simpa using h0
  | succ count ih =>
    intro start b h0 hstep
    have hnext : start + (count + 1) * step = start + step + count * step := by
      rw [Nat.succ_mul]
      omega
    rw [hnext] at hstep ⊢
    rw [List.range'_succ, List.foldl_cons]
    exact ih (hstep start b (Nat.le_add_right _ _) h0) hstep

/-- A loop that can fail does not, when its body keeps what it needs. -/
theorem foldlM_total (Inv : β → Prop) {f : β → α → Option β} {l : List α} {b : β} (hb : Inv b)
    (hstep : ∀ b, ∀ a ∈ l, Inv b → ∃ b', f b a = some b' ∧ Inv b') :
    ∃ b', l.foldlM f b = some b' ∧ Inv b' := by
  induction l generalizing b with
  | nil => exact ⟨b, rfl, hb⟩
  | cons a l ih =>
    obtain ⟨b', hfb, hb'⟩ := hstep b a List.mem_cons_self hb
    rw [List.foldlM_cons, hfb]
    exact ih hb' fun b a ha => hstep b a (List.mem_cons_of_mem _ ha)

/-- The pairs `(i, j)` of `for (j = 0; j < height; j++) for (i = 0; i < width; i++)`. -/
def grid (width height : Nat) : List (Nat × Nat) :=
  (List.range height).flatMap fun j => (List.range width).map fun i => (i, j)

theorem mem_grid {width height : Nat} {p : Nat × Nat} :
    p ∈ grid width height ↔ p.1 < width ∧ p.2 < height := by
  obtain ⟨i, j⟩ := p
  simp [grid, and_comm]

/-- The row-major index numbers the pairs in the order of the loops. -/
theorem grid_map_index (width height : Nat) :
    (grid width height).map (fun p => width * p.2 + p.1) = List.range (width * height) := by
  induction height with
  | zero => rfl
  | succ height ih =>
    have hgrid : grid width (height + 1) =
        grid width height ++ (List.range width).map fun i => (i, height) := by
      unfold grid
      rw [List.range_succ, List.flatMap_append]
      simp
    rw [hgrid, List.map_append, ih, List.map_map, Nat.mul_succ, List.range_add]
    rfl

/-! ## Changed rows -/

/-- The rows of the first table that are not the rows of the second at the same place. -/
def changed [DecidableEq α] : List α → List α → List α
  | x :: xs, y :: ys => if x = y then changed xs ys else x :: changed xs ys
  | _, _ => []

section Changed

variable [DecidableEq α]

theorem changed_append {xs ys : List α} (xs' ys' : List α) (hlen : xs.length = ys.length) :
    changed (xs ++ xs') (ys ++ ys') = changed xs ys ++ changed xs' ys' := by
  induction xs generalizing ys with
  | nil =>
    obtain rfl : ys = [] := List.eq_nil_of_length_eq_zero hlen.symm
    rfl
  | cons x xs ih =>
    cases ys with
    | nil => cases hlen
    | cons y ys =>
      have htail := ih (Nat.succ.inj hlen)
      simp only [List.cons_append, changed, htail]
      split <;> rfl

theorem changed_self (xs : List α) : changed xs xs = [] := by
  induction xs with
  | nil => rfl
  | cons x xs ih => simp [changed, ih]

theorem changed_subset (xs ys : List α) : changed xs ys ⊆ xs := by
  induction xs generalizing ys with
  | nil => simp [changed]
  | cons x xs ih =>
    cases ys with
    | nil => simp [changed]
    | cons y ys =>
      unfold changed
      split
      · exact List.subset_cons_of_subset _ (ih ys)
      · exact List.cons_subset_cons _ (ih ys)

theorem mem_changed {xs ys : List α} {x y : α} (h : (x, y) ∈ xs.zip ys) (hne : x ≠ y) :
    x ∈ changed xs ys := by
  induction xs generalizing ys with
  | nil => cases h
  | cons x' xs ih =>
    cases ys with
    | nil => cases h
    | cons y' ys =>
      rw [List.zip_cons_cons, List.mem_cons] at h
      unfold changed
      rcases h with heq | h
      · obtain ⟨rfl, rfl⟩ := Prod.mk.inj heq
        rw [if_neg hne]
        exact List.mem_cons_self
      · have htail := ih h
        split
        · exact htail
        · exact List.mem_cons_of_mem _ htail

/-- Prefixes of the changed rows, one block of the tables at a time. -/
theorem changed_take_add {xs ys : List α} (i c : Nat) (hlen : xs.length = ys.length) :
    changed (xs.take (i + c)) (ys.take (i + c)) =
      changed (xs.take i) (ys.take i) ++ changed ((xs.drop i).take c) ((ys.drop i).take c) := by
  rw [List.take_add, List.take_add, changed_append]
  rw [List.length_take, List.length_take, hlen]

end Changed

/-! ## Replay -/

/-- Replace, for each record in turn, the one at the same index. -/
def patch [DecidableEq ι] (index : β → ι) (m : ι → β) (ds : List β) : ι → β :=
  ds.foldl (fun m d => Function.update m (index d) d) m

section Patch

variable [DecidableEq ι] {index : β → ι}

theorem patch_cons (m : ι → β) (d : β) (ds : List β) :
    patch index m (d :: ds) = patch index (Function.update m (index d) d) ds := rfl

theorem patch_of_notMem {m : ι → β} {ds : List β} {i : ι} (h : ∀ d ∈ ds, index d ≠ i) :
    patch index m ds i = m i := by
  induction ds generalizing m with
  | nil => rfl
  | cons d ds ih =>
    rw [patch_cons, ih fun d' hd' => h d' (List.mem_cons_of_mem _ hd')]
    exact Function.update_of_ne (h d List.mem_cons_self).symm ..

/-- What is at an index afterwards depends on what was there before. -/
theorem patch_congr {m m' : ι → β} {i : ι} (h : m i = m' i) (ds : List β) :
    patch index m ds i = patch index m' ds i := by
  induction ds generalizing m m' with
  | nil => exact h
  | cons d ds ih =>
    rw [patch_cons, patch_cons]
    apply ih
    by_cases hd : i = index d
    · rw [hd, Function.update_self, Function.update_self]
    · rw [Function.update_of_ne hd, Function.update_of_ne hd, h]

/-- An index that is replaced has nothing of what was there before. -/
theorem patch_of_mem {ds : List β} {i : ι} (h : ∃ d ∈ ds, index d = i) (m m' : ι → β) :
    patch index m ds i = patch index m' ds i := by
  induction ds generalizing m m' with
  | nil =>
    obtain ⟨d, hd, -⟩ := h
    cases hd
  | cons d ds ih =>
    rw [patch_cons, patch_cons]
    by_cases hd : index d = i
    · apply patch_congr
      rw [← hd, Function.update_self, Function.update_self]
    · obtain ⟨d', hd', hi⟩ := h
      cases List.mem_cons.mp hd' with
      | inl heq => exact absurd (heq ▸ hi) hd
      | inr hmem => exact ih ⟨d', hmem, hi⟩ _ _

/-- Records that are in place already change nothing. -/
theorem patch_of_inPlace {m : ι → β} {ds : List β} (h : ∀ d ∈ ds, m (index d) = d) :
    patch index m ds = m := by
  induction ds with
  | nil => rfl
  | cons d ds ih =>
    have hd : Function.update m (index d) d = m := by
      rw [Function.update_eq_iff]
      exact ⟨(h d List.mem_cons_self).symm, fun _ _ => rfl⟩
    rw [patch_cons, hd]
    exact ih fun d' hd' => h d' (List.mem_cons_of_mem _ hd')

/-- The changed rows of a table with distinct keys turn a copy of the old table into one of the new. -/
theorem patch_changed [DecidableEq α] (key : κ → ι) (row : κ → α) (msg : α → β)
    (hkey : ∀ k, index (msg (row k)) = key k) {ks : List κ} {old : List α} {m : ι → β}
    (hnodup : (ks.map key).Nodup) (hm : List.Forall₂ (fun k y => m (key k) = msg y) ks old) :
    ∀ k ∈ ks, patch index m ((changed (ks.map row) old).map msg) (key k) = msg (row k) := by
  induction ks generalizing m old with
  | nil => exact fun k hk => by cases hk
  | cons k ks ih =>
    cases hm with
    | @cons _ y _ old hhead htail =>
    rw [List.map_cons, List.nodup_cons] at hnodup
    obtain ⟨hnot, hnodup⟩ := hnodup
    have hne : ∀ k' ∈ ks, key k' ≠ key k :=
      fun k' hk' heq => hnot (heq ▸ List.mem_map_of_mem hk')
    -- no record of the other rows has the key of the first
    have hrest : ∀ m' : ι → β,
        patch index m' ((changed (ks.map row) old).map msg) (key k) = m' (key k) := by
      intro m'
      apply patch_of_notMem
      intro d hd
      obtain ⟨x, hx, rfl⟩ := List.mem_map.mp hd
      obtain ⟨k', hk', rfl⟩ := List.mem_map.mp (changed_subset _ _ hx)
      rw [hkey k']
      exact hne k' hk'
    intro k' hk'
    rw [List.map_cons, changed]
    split
    · rename_i hsame
      rcases List.mem_cons.mp hk' with rfl | hk'
      · rw [hrest, hhead, hsame]
      · exact ih hnodup htail k' hk'
    · rw [List.map_cons, patch_cons, hkey k]
      rcases List.mem_cons.mp hk' with rfl | hk'
      · rw [hrest, Function.update_self]
      · refine ih hnodup ?_ k' hk'
        obtain ⟨hlen, hzip⟩ := List.forall₂_iff_zip.mp htail
        refine List.forall₂_iff_zip.mpr ⟨hlen, fun {k' y'} hmem => ?_⟩
        rw [Function.update_of_ne (hne k' (List.of_mem_zip hmem).1)]
        exact hzip hmem

end Patch

end Ra2yrcpp.Reasoning
