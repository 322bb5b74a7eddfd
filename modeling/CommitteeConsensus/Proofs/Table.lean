import CommitteeConsensus.Table

/-! # Tables from lists

    A table lists its entries in ascending order, so building it anew from that list changes
    nothing, and of any list no more entries are kept than it has.
-/

namespace CommitteeConsensus.Table

variable {κ α : Type} [LT κ] [DecidableLT κ]

theorem length_place_le (k : κ) (v : α) (es : List (κ × α)) :
    (place k v es).length ≤ es.length + 1 := by
  induction es with
  | nil => simp [place]
  | cons e rest ih =>
    rw [place]
    split
    · simp
    · split
      · simpa using ih
      · simp

theorem mem_of_mem_place {k : κ} {v : α} {es : List (κ × α)} {e : κ × α}
    (h : e ∈ place k v es) : e = (k, v) ∨ e ∈ es := by
  induction es with
  | nil => simpa [place] using h
  | cons d rest ih =>
    rw [place] at h
    split at h
    · simpa using h
    · split at h
      · rcases List.mem_cons.1 h with rfl | h
        · exact .inr (by simp)
        · exact (ih h).imp id (List.mem_cons_of_mem d)
      · rcases List.mem_cons.1 h with h | h
        · exact .inl h
        · exact .inr (List.mem_cons_of_mem d h)

variable [KeyOrder κ]

/-- A key above all others is placed at the end. -/
theorem place_of_forall_lt {k : κ} (v : α) {es : List (κ × α)}
    (h : ∀ x ∈ es.map Prod.fst, x < k) : place k v es = es ++ [(k, v)] := by
  induction es with
  | nil => rfl
  | cons e rest ih =>
    have he : e.1 < k := h e.1 (by simp)
    have hnot : ¬ k < e.1 := fun hk => KeyOrder.irrefl k (KeyOrder.trans hk he)
    rw [place, if_neg hnot, if_pos he, ih fun x hx => h x (List.mem_cons_of_mem _ hx)]
    rfl

theorem entries_foldl_insert {es : List (κ × α)} (t : Table κ α)
    (h : ((t.entries ++ es).map Prod.fst).Pairwise (· < ·)) :
    (es.foldl (fun t e => t.insert e.1 e.2) t).entries = t.entries ++ es := by
  induction es generalizing t with
  | nil => simp
  | cons e rest ih =>
    have hsplit := h
    rw [List.map_append, List.pairwise_append] at hsplit
    have hlast : (t.insert e.1 e.2).entries = t.entries ++ [e] :=
      place_of_forall_lt e.2 fun x hx => hsplit.2.2 x hx e.1 (by simp)
    have hstep := ih (t.insert e.1 e.2) (by rw [hlast]; simpa using h)
    rw [List.foldl_cons, hstep, hlast]
    simp

theorem ofList_entries (t : Table κ α) : ofList t.entries = t :=
  ext (entries_foldl_insert empty t.ascending)

theorem size_foldl_insert_le (t : Table κ α) (es : List (κ × α)) :
    (es.foldl (fun t e => t.insert e.1 e.2) t).size ≤ t.size + es.length := by
  induction es generalizing t with
  | nil => simp
  | cons e rest ih =>
    have hplace := length_place_le e.1 e.2 t.entries
    have hrest := ih (t.insert e.1 e.2)
    simp only [insert, size, List.foldl_cons, List.length_cons] at *
    omega

theorem size_ofList_le (es : List (κ × α)) : (ofList es).size ≤ es.length := by
  simpa [ofList, empty, size] using size_foldl_insert_le (empty : Table κ α) es

theorem mem_foldl_insert {t : Table κ α} {es : List (κ × α)} {e : κ × α}
    (h : e ∈ (es.foldl (fun t e => t.insert e.1 e.2) t).entries) : e ∈ t.entries ∨ e ∈ es := by
  induction es generalizing t with
  | nil => exact .inl h
  | cons d rest ih =>
    rcases ih h with h | h
    · rcases mem_of_mem_place h with rfl | h
      · exact .inr (by simp)
      · exact .inl h
    · exact .inr (List.mem_cons_of_mem d h)

/-- Every entry of a table made from a list comes from the list. -/
theorem mem_of_mem_ofList {es : List (κ × α)} {e : κ × α} (h : e ∈ (ofList es).entries) :
    e ∈ es :=
  (mem_foldl_insert h).resolve_left (by simp [empty])

theorem contains_foldl_insert [DecidableEq κ] (t : Table κ α) (es : List (κ × α)) (k : κ) :
    (es.foldl (fun t e => t.insert e.1 e.2) t).contains k = true
      ↔ t.contains k = true ∨ k ∈ es.map Prod.fst := by
  induction es generalizing t with
  | nil => simp
  | cons e rest ih =>
    have hinsert : (t.insert e.1 e.2).contains k = true ↔ k = e.1 ∨ t.contains k = true := by
      rw [contains, get?_insert]
      by_cases hk : e.1 = k
      · simp [hk]
      · have hne : k ≠ e.1 := fun h => hk h.symm
        simp [hk, hne, contains]
    rw [List.foldl_cons, ih, hinsert, List.map_cons, List.mem_cons]
    constructor
    · rintro ((h | h) | h)
      · exact .inr (.inl h)
      · exact .inl h
      · exact .inr (.inr h)
    · rintro (h | h | h)
      · exact .inl (.inr h)
      · exact .inl (.inl h)
      · exact .inr h

/-- A table made from a list has the keys of the list. -/
theorem contains_ofList [DecidableEq κ] (es : List (κ × α)) (k : κ) :
    (ofList es).contains k = true ↔ k ∈ es.map Prod.fst := by
  rw [ofList, contains_foldl_insert]
  simp [contains]

theorem get?_foldl_insert_of_notMem [DecidableEq κ] (t : Table κ α) {es : List (κ × α)} {k : κ}
    (h : k ∉ es.map Prod.fst) :
    (es.foldl (fun t e => t.insert e.1 e.2) t).get? k = t.get? k := by
  induction es generalizing t with
  | nil => rfl
  | cons e rest ih =>
    rw [List.map_cons, List.mem_cons, not_or] at h
    rw [List.foldl_cons, ih _ h.2, get?_insert, if_neg fun heq => h.1 heq.symm]

theorem get?_foldl_insert_of_mem [DecidableEq κ] (t : Table κ α) {es : List (κ × α)} {k : κ} {v : α}
    (hnodup : (es.map Prod.fst).Nodup) (h : (k, v) ∈ es) :
    (es.foldl (fun t e => t.insert e.1 e.2) t).get? k = some v := by
  induction es generalizing t with
  | nil => simp at h
  | cons e rest ih =>
    rw [List.map_cons, List.nodup_cons] at hnodup
    rw [List.foldl_cons]
    rcases List.mem_cons.1 h with rfl | h
    · -- no later entry has the key
      rw [get?_foldl_insert_of_notMem _ hnodup.1, get?_insert_self]
    · exact ih _ hnodup.2 h

/-- An entry of a list that names no key twice is found in the table made from the list. -/
theorem get?_ofList_of_mem [DecidableEq κ] {es : List (κ × α)} {k : κ} {v : α}
    (hnodup : (es.map Prod.fst).Nodup) (h : (k, v) ∈ es) : (ofList es).get? k = some v :=
  get?_foldl_insert_of_mem empty hnodup h

end CommitteeConsensus.Table
