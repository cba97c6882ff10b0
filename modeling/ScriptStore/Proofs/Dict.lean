import ScriptStore.Dict

/-!
# Laws of dictionaries

What a dictionary gives for a key after an insertion or an erasure, and that a key stands in its
bindings once.
-/

namespace ScriptStore.Dict

variable {α β : Type} [DecidableEq α]

theorem lookup_put (k k' : α) (v : β) (l : List (α × β)) :
    lookup k' (put k v l) = if k = k' then some v else lookup k' l := by
  induction l with
  | nil => simp [put, lookup]
  | cons e rest ih =>
    obtain ⟨k₁, v₁⟩ := e
    by_cases h : k₁ = k
    · subst h
      by_cases hk : k₁ = k' <;> simp [put, lookup, hk]
    · by_cases hk : k₁ = k'
      · subst hk
        simp [put, lookup, h, Ne.symm h]
      · simp [put, lookup, h, hk, ih]

theorem lookup_map {γ : Type} (f : β → γ) (k : α) (l : List (α × β)) :
    lookup k (l.map fun e => (e.1, f e.2)) = (lookup k l).map f := by
  induction l with
  | nil => rfl
  | cons e rest ih =>
    obtain ⟨k₁, v⟩ := e
    rw [List.map_cons, lookup, lookup, ih]
    split <;> rfl

theorem get?_insert (d : Dict α β) (k k' : α) (v : β) :
    (d.insert k v).get? k' = if k = k' then some v else d.get? k' :=
  lookup_put k k' v d.entries

theorem get?_erase (d : Dict α β) (k k' : α) :
    (d.erase k).get? k' = if k = k' then none else d.get? k' := by
  obtain ⟨l⟩ := d
  simp only [erase, get?]
  induction l with
  | nil => simp [lookup]
  | cons e rest ih =>
    obtain ⟨k₁, v₁⟩ := e
    by_cases h : k₁ = k
    · subst h
      rw [List.filter_cons_of_neg (by simp), ih]
      by_cases hk : k₁ = k' <;> simp [lookup, hk]
    · rw [List.filter_cons_of_pos (by simpa using h), lookup, ih, lookup]
      by_cases hk : k₁ = k'
      · subst hk
        simp [Ne.symm h]
      · simp [hk]

theorem get?_foldl_erase (ks : List α) (d : Dict α β) (k : α) :
    (ks.foldl erase d).get? k = if k ∈ ks then none else d.get? k := by
  induction ks generalizing d with
  | nil => simp
  | cons k₁ ks ih =>
    rw [List.foldl_cons, ih, get?_erase]
    by_cases h : k₁ = k
    · simp [h]
    · simp [h, Ne.symm h]

theorem get?_foldl_insert_of_notMem {l : List (α × β)} {k : α} (h : k ∉ l.map (·.1)) (d : Dict α β) :
    (l.foldl (fun d e => d.insert e.1 e.2) d).get? k = d.get? k := by
  induction l generalizing d with
  | nil => rfl
  | cons e l ih =>
    rw [List.map_cons, List.mem_cons, not_or] at h
    rw [List.foldl_cons, ih h.2, get?_insert, if_neg (Ne.symm h.1)]

/-- The last entry of a key is the one that is found. -/
theorem get?_ofList_append (front : List (α × β)) (k : α) (v : β) {back : List (α × β)}
    (h : k ∉ back.map (·.1)) : (ofList (front ++ (k, v) :: back)).get? k = some v := by
  rw [ofList, List.foldl_append, List.foldl_cons, get?_foldl_insert_of_notMem h, get?_insert, if_pos rfl]

/-! ## Keys stand once -/

theorem map_fst_put (k : α) (v : β) (l : List (α × β)) :
    (put k v l).map (·.1) = if k ∈ l.map (·.1) then l.map (·.1) else l.map (·.1) ++ [k] := by
  induction l with
  | nil => simp [put]
  | cons e rest ih =>
    obtain ⟨k₁, v₁⟩ := e
    by_cases h : k₁ = k
    · simp [put, h]
    · rw [put, if_neg h, List.map_cons, ih]
      by_cases hk : k ∈ rest.map (·.1)
      · have hcons : k ∈ ((k₁, v₁) :: rest).map (·.1) := List.mem_cons_of_mem _ hk
        rw [if_pos hk, if_pos hcons, List.map_cons]
      · have hcons : k ∉ ((k₁, v₁) :: rest).map (·.1) := by
          rw [List.map_cons, List.mem_cons]
          exact fun hor => hor.elim (Ne.symm h) hk
        rw [if_neg hk, if_neg hcons, List.map_cons, List.cons_append]

theorem nodup_keys_insert {d : Dict α β} (h : d.keys.Nodup) (k : α) (v : β) :
    (d.insert k v).keys.Nodup := by
  change ((put k v d.entries).map (·.1)).Nodup
  rw [map_fst_put]
  split
  · exact h
  · next hk => exact List.nodup_append.2 ⟨h, by simp, by grind [keys]⟩

theorem mem_keys_insert {d : Dict α β} {k k' : α} {v : β} (h : k' ∈ (d.insert k v).keys) :
    k' = k ∨ k' ∈ d.keys := by
  change k' ∈ (put k v d.entries).map (·.1) at h
  rw [map_fst_put] at h
  split at h
  · exact .inr h
  · exact (List.mem_append.1 h).symm.imp_left List.mem_singleton.1

theorem mem_keys_erase {d : Dict α β} {k k' : α} (h : k' ∈ (d.erase k).keys) : k' ∈ d.keys :=
  (List.filter_sublist.map _).subset h

theorem nodup_keys_erase {d : Dict α β} (h : d.keys.Nodup) (k : α) : (d.erase k).keys.Nodup :=
  h.sublist (List.filter_sublist.map _)

theorem nodup_keys_foldl_erase (ks : List α) {d : Dict α β} (h : d.keys.Nodup) :
    (ks.foldl erase d).keys.Nodup := by
  induction ks generalizing d with
  | nil => exact h
  | cons k ks ih => exact ih (nodup_keys_erase h k)

theorem mem_entries_iff {d : Dict α β} (h : d.keys.Nodup) {k : α} {v : β} :
    (k, v) ∈ d.entries ↔ d.get? k = some v := by
  obtain ⟨l⟩ := d
  simp only [get?, keys] at h ⊢
  induction l with
  | nil => simp [lookup]
  | cons e rest ih =>
    obtain ⟨k₁, v₁⟩ := e
    rw [List.map_cons, List.nodup_cons] at h
    by_cases hk : k₁ = k
    · subst hk
      have hnot : (k₁, v) ∉ rest := fun hmem => h.1 (List.mem_map_of_mem (f := (·.1)) hmem)
      simp [lookup, hnot, eq_comm]
    · simp [lookup, hk, Ne.symm hk, ih h.2]

/-- The order of the bindings does not matter. -/
theorem lookup_perm {l l' : List (α × β)} (hperm : l.Perm l') (h : (l.map (·.1)).Nodup) (k : α) :
    lookup k l' = lookup k l := by
  have h' : (l'.map (·.1)).Nodup := (hperm.map _).nodup_iff.1 h
  refine Option.ext fun v => ?_
  have hmem := mem_entries_iff (d := ⟨l⟩) h (k := k) (v := v)
  have hmem' := mem_entries_iff (d := ⟨l'⟩) h' (k := k) (v := v)
  rw [get?] at hmem hmem'
  rw [← hmem, ← hmem', hperm.mem_iff]

theorem lookup_eq_none {k : α} {l : List (α × β)} (h : k ∉ l.map (·.1)) : lookup k l = none := by
  induction l with
  | nil => rfl
  | cons e rest ih =>
    rw [List.map_cons, List.mem_cons, not_or] at h
    rw [lookup, if_neg (Ne.symm h.1), ih h.2]

end ScriptStore.Dict
