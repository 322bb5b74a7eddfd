import CommitteeConsensus.Bytes

/-! # Sorted tables

    A finite map whose entries are listed once, in ascending key order. The order is what the
    written form of a state commits to, and it makes two tables with the same lookups equal.
    Reading is described by `get?`; `get?_insert` and `get?_filterKeys` say what each operation
    does to it, and `ext_get?` that nothing else is observable.
-/

namespace CommitteeConsensus

/-- A strict total order on keys. -/
class KeyOrder (κ : Type) [LT κ] : Prop where
  irrefl : ∀ a : κ, ¬ a < a
  trans : ∀ {a b c : κ}, a < b → b < c → a < c
  connected : ∀ {a b : κ}, ¬ a < b → ¬ b < a → a = b

instance {n : Nat} : KeyOrder (Bytes n) := ⟨Bytes.lt_irrefl, Bytes.lt_trans, Bytes.eq_of_not_lt⟩

instance : KeyOrder Address := inferInstance

instance : KeyOrder Hash := inferInstance

instance : KeyOrder UInt64 where
  irrefl := UInt64.lt_irrefl
  trans := UInt64.lt_trans
  connected := fun h k => UInt64.le_antisymm (UInt64.not_lt.1 k) (UInt64.not_lt.1 h)

instance : KeyOrder (List UInt8) where
  irrefl := List.lt_irrefl
  trans := List.lt_trans
  connected := fun h k => List.le_antisymm (List.not_lt.1 k) (List.not_lt.1 h)

structure Table (κ α : Type) [LT κ] where
  entries : List (κ × α)
  ascending : (entries.map Prod.fst).Pairwise (· < ·)

namespace Table

section Basic

variable {κ α : Type} [LT κ]

def keys (t : Table κ α) : List κ := t.entries.map Prod.fst
def values (t : Table κ α) : List α := t.entries.map Prod.snd
def size (t : Table κ α) : Nat := t.entries.length

@[simp] theorem length_keys (t : Table κ α) : t.keys.length = t.size := by simp [keys, size]

theorem ext {s t : Table κ α} (h : s.entries = t.entries) : s = t := by
  cases s; cases t; congr

instance [DecidableEq κ] [DecidableEq α] : DecidableEq (Table κ α) := fun s t =>
  decidable_of_iff (s.entries = t.entries) ⟨ext, fun h => h ▸ rfl⟩

def empty : Table κ α := ⟨[], List.Pairwise.nil⟩

instance : Inhabited (Table κ α) := ⟨empty⟩

/-- Keeps the entries whose key passes. -/
def filterKeys (t : Table κ α) (p : κ → Bool) : Table κ α :=
  ⟨t.entries.filter fun e => p e.1, t.ascending.sublist (List.filter_sublist.map _)⟩

end Basic

/-! ## Looking up -/

section Lookup

variable {κ α : Type} [DecidableEq κ]

/-- The value beside the first entry with key `k`. -/
def seek (k : κ) (es : List (κ × α)) : Option α := (es.find? (·.1 = k)).map Prod.snd

@[simp] theorem seek_nil (k : κ) : seek k ([] : List (κ × α)) = none := rfl

theorem seek_cons (k : κ) (e : κ × α) (es : List (κ × α)) :
    seek k (e :: es) = if e.1 = k then some e.2 else seek k es := by
  by_cases h : e.1 = k <;> simp [seek, h]

variable [LT κ]

def get? (t : Table κ α) (k : κ) : Option α := seek k t.entries

def contains (t : Table κ α) (k : κ) : Bool := (t.get? k).isSome

@[simp] theorem get?_empty (k : κ) : (empty : Table κ α).get? k = none := rfl

theorem mem_keys_iff (t : Table κ α) (k : κ) : k ∈ t.keys ↔ t.contains k := by
  simp [contains, get?, keys, seek]

theorem get?_filterKeys (t : Table κ α) (p : κ → Bool) (k : κ) :
    (t.filterKeys p).get? k = if p k then t.get? k else none := by
  simp only [get?, filterKeys]
  induction t.entries with
  | nil => simp
  | cons e rest ih =>
    by_cases hp : p e.1 <;> by_cases hk : e.1 = k <;> simp_all [seek_cons]

end Lookup

/-! ## Inserting -/

section Insert

variable {κ α : Type} [LT κ] [DecidableLT κ]

/-- Puts an entry at its place among ascending entries, in place of one with the same key. -/
def place (k : κ) (v : α) : List (κ × α) → List (κ × α)
  | [] => [(k, v)]
  | e :: rest =>
    if k < e.1 then (k, v) :: e :: rest
    else if e.1 < k then e :: place k v rest
    else (k, v) :: rest

theorem mem_map_place {k : κ} {v : α} {es : List (κ × α)} {x : κ}
    (h : x ∈ (place k v es).map Prod.fst) : x = k ∨ x ∈ es.map Prod.fst := by
  induction es with
  | nil => simpa [place] using h
  | cons e rest ih =>
    rw [place] at h
    split at h
    · simpa using h
    · split at h
      · rcases List.mem_cons.1 h with h | h
        · exact .inr (by simp [h])
        · exact (ih h).imp id (List.mem_cons_of_mem _)
      · rcases List.mem_cons.1 h with h | h
        · exact .inl h
        · exact .inr (List.mem_cons_of_mem _ h)

variable [KeyOrder κ]

theorem ascending_place (k : κ) (v : α) {es : List (κ × α)}
    (h : (es.map Prod.fst).Pairwise (· < ·)) : ((place k v es).map Prod.fst).Pairwise (· < ·) := by
  induction es with
  | nil => simp [place]
  | cons e rest ih =>
    have hcons := h
    rw [List.map_cons, List.pairwise_cons] at h
    rw [place]
    split
    · next hk =>
      rw [List.map_cons, List.pairwise_cons]
      refine ⟨fun x hx => ?_, hcons⟩
      rcases List.mem_cons.1 hx with rfl | hx
      · exact hk
      · exact KeyOrder.trans hk (h.1 x hx)
    · next hk =>
      split
      · next hk' =>
        rw [List.map_cons, List.pairwise_cons]
        exact ⟨fun x hx => (mem_map_place hx).elim (· ▸ hk') (h.1 x), ih h.2⟩
      · next hk' =>
        rw [List.map_cons, List.pairwise_cons]
        exact KeyOrder.connected hk hk' ▸ h

def insert (t : Table κ α) (k : κ) (v : α) : Table κ α :=
  ⟨place k v t.entries, ascending_place k v t.ascending⟩

/-- Of entries with one key the last one stays. -/
def ofList (es : List (κ × α)) : Table κ α := es.foldl (fun t e => t.insert e.1 e.2) empty

theorem seek_place [DecidableEq κ] (k j : κ) (v : α) (es : List (κ × α)) :
    seek j (place k v es) = if k = j then some v else seek j es := by
  induction es with
  | nil => simp [place, seek_cons]
  | cons e rest ih =>
    rw [place]
    split
    · simp [seek_cons]
    · next hk =>
      split
      · next hk' =>
        have hne : e.1 ≠ k := fun he => KeyOrder.irrefl k (he ▸ hk')
        by_cases he : e.1 = j <;> by_cases hj : k = j <;> simp_all [seek_cons]
      · next hk' =>
        have he : k = e.1 := KeyOrder.connected hk hk'
        by_cases hj : k = j <;> simp_all [seek_cons]

theorem get?_insert [DecidableEq κ] (t : Table κ α) (k j : κ) (v : α) :
    (t.insert k v).get? j = if k = j then some v else t.get? j :=
  seek_place k j v t.entries

@[simp] theorem get?_insert_self [DecidableEq κ] (t : Table κ α) (k : κ) (v : α) :
    (t.insert k v).get? k = some v := by
  simp [get?_insert]

end Insert

/-! ## Equality -/

section Ext

variable {κ α : Type} [LT κ] [DecidableEq κ] [KeyOrder κ]

theorem seek_eq_none {k : κ} {es : List (κ × α)} (h : ∀ x ∈ es.map Prod.fst, k < x) :
    seek k es = none := by
  simp only [seek, Option.map_eq_none_iff, List.find?_eq_none, decide_eq_true_eq]
  exact fun e he hk => KeyOrder.irrefl k (hk ▸ h e.1 (List.mem_map_of_mem he))

theorem eq_of_seek {ds es : List (κ × α)} (hd : (ds.map Prod.fst).Pairwise (· < ·))
    (he : (es.map Prod.fst).Pairwise (· < ·)) (h : ∀ k, seek k ds = seek k es) : ds = es := by
  induction ds generalizing es with
  | nil =>
    cases es with
    | nil => rfl
    | cons e es => simpa [seek_cons] using h e.1
  | cons d ds ih =>
    cases es with
    | nil => simpa [seek_cons] using h d.1
    | cons e es =>
      rw [List.map_cons, List.pairwise_cons] at hd he
      have hkey : d.1 = e.1 := by
        apply KeyOrder.connected
        · intro hlt
          have := h d.1
          rw [seek_cons, if_pos rfl, seek_eq_none] at this
          · simp at this
          · intro x hx
            rcases List.mem_cons.1 hx with rfl | hx
            · exact hlt
            · exact KeyOrder.trans hlt (he.1 x hx)
        · intro hlt
          have := h e.1
          rw [seek_cons e.1 e, if_pos rfl, seek_eq_none] at this
          · simp at this
          · intro x hx
            rcases List.mem_cons.1 hx with rfl | hx
            · exact hlt
            · exact KeyOrder.trans hlt (hd.1 x hx)
      have hval : d.2 = e.2 := by simpa [seek_cons, hkey] using h d.1
      have hde : d = e := Prod.ext hkey hval
      subst hde
      congr 1
      refine ih hd.2 he.2 fun k => ?_
      have hk := h k
      by_cases hdk : d.1 = k
      · subst hdk; rw [seek_eq_none hd.1, seek_eq_none he.1]
      · simpa [seek_cons, hdk] using hk

theorem ext_get? {s t : Table κ α} (h : ∀ k, s.get? k = t.get? k) : s = t :=
  ext (eq_of_seek s.ascending t.ascending h)

end Ext

end Table

/-- A table of accounts. -/
abbrev AddressTable (α : Type) := Table Address α

end CommitteeConsensus
