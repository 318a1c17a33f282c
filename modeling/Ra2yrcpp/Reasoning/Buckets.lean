import Mathlib.Data.List.AList

/-!
# Maps of containers

A map whose values hold elements, such as a map of queues.  `contents` lists all elements of all
values; inserting, replacing and erasing a value change it by the elements of that value alone.
-/

namespace Ra2yrcpp.Reasoning

variable {κ β γ : Type*} [DecidableEq κ]

/-- The elements of all values of the map, as `f` reads them. -/
def contents (f : κ → β → List γ) (m : AList fun _ : κ => β) : List γ :=
  m.entries.flatMap fun e => f e.1 e.2

variable {f : κ → β → List γ} {m : AList fun _ : κ => β} {k : κ} {b : β}

theorem mem_contents {x : γ} : x ∈ contents f m ↔ ∃ k b, m.lookup k = some b ∧ x ∈ f k b := by
  unfold contents
  rw [List.mem_flatMap]
  constructor
  · rintro ⟨⟨k, b⟩, hmem, hx⟩
    exact ⟨k, b, AList.mem_lookup_iff.mpr hmem, hx⟩
  · rintro ⟨k, b, hl, hx⟩
    exact ⟨⟨k, b⟩, AList.mem_lookup_iff.mp hl, hx⟩

theorem lookup_insert_cases {i : κ} {c : β} (h : (m.insert k b).lookup i = some c) :
    i = k ∧ c = b ∨ i ≠ k ∧ m.lookup i = some c := by
  by_cases hi : i = k
  · subst hi
    rw [AList.lookup_insert] at h
    exact Or.inl ⟨rfl, (Option.some.inj h).symm⟩
  · rw [AList.lookup_insert_ne hi] at h
    exact Or.inr ⟨hi, h⟩

theorem lookup_of_lookup_erase {i : κ} {c : β} (h : (m.erase k).lookup i = some c) :
    m.lookup i = some c := by
  have hi : i ≠ k := by
    rintro rfl
    rw [AList.lookup_erase] at h
    cases h
  rwa [AList.lookup_erase_ne hi] at h

theorem contents_insert (m : AList fun _ : κ => β) (k : κ) (b : β) :
    contents f (m.insert k b) = f k b ++ contents f (m.erase k) := by
  unfold contents
  rw [AList.entries_insert, List.flatMap_cons]
  rfl

theorem mem_contents_of_mem_erase {x : γ} (hx : x ∈ contents f (m.erase k)) : x ∈ contents f m := by
  obtain ⟨i, c, hl, hx⟩ := mem_contents.mp hx
  exact mem_contents.mpr ⟨i, c, lookup_of_lookup_erase hl, hx⟩

/-- What a map holds with a new value is in that value, or was there before. -/
theorem mem_contents_insert {x : γ} (hx : x ∈ contents f (m.insert k b)) :
    x ∈ f k b ∨ x ∈ contents f m := by
  rw [contents_insert, List.mem_append] at hx
  exact hx.imp_right mem_contents_of_mem_erase

theorem contents_perm_erase (h : m.lookup k = some b) :
    (contents f m).Perm (f k b ++ contents f (m.erase k)) := by
  have hmem : (⟨k, b⟩ : Sigma fun _ : κ => β) ∈ m.entries := AList.mem_lookup_iff.mp h
  obtain ⟨b', l₁, l₂, hnot, heq, herase⟩ :=
    List.exists_of_kerase (List.mem_keys_of_mem hmem)
  have hb : b' = b := by
    have hl : m.entries.dlookup k = some b := h
    rw [heq, List.dlookup_append, List.dlookup_eq_none.mpr hnot] at hl
    simpa using hl
  subst hb
  unfold contents
  change (m.entries.flatMap _).Perm (f k b' ++ ((m.entries.kerase k).flatMap _))
  rw [herase, heq, List.flatMap_append, List.flatMap_append, List.flatMap_cons]
  exact List.perm_append_comm_assoc ..

theorem contents_erase_of_notMem (h : k ∉ m) : contents f (m.erase k) = contents f m := by
  unfold contents
  change (m.entries.kerase k).flatMap _ = _
  rw [List.kerase_of_notMem_keys h]

end Ra2yrcpp.Reasoning
