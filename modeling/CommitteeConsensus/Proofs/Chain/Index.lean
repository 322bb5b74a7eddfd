import CommitteeConsensus.Chain.Index

/-! # Chains that were built by insertions

    Every header of such a chain stands under its own hash, so a header that is found by hash is
    the one that was asked for.

    As long as no two headers have one hash, the canonical headers stand under their own numbers
    too (`Indexed`), and an insertion leaves those below the new header alone
    (`headerAt?_insert_of_lt`).
-/

namespace CommitteeConsensus

/-! ## Hashes -/

/-- Of the headers that satisfy `S` no two have one hash. -/
def HashesIdentify (S : Header → Prop) : Prop :=
  ∀ g h, S g → S h → g.hash = h.hash → g = h

theorem HashesIdentify.mono {S T : Header → Prop} (h : HashesIdentify T) (hST : ∀ g, S g → T g) :
    HashesIdentify S :=
  fun g g' hg hg' => h g g' (hST g hg) (hST g' hg')

theorem hashesIdentify_of_nodup {headers : List Header} (h : (headers.map Header.hash).Nodup) :
    HashesIdentify (· ∈ headers) := by
  induction headers with
  | nil =>
    intro g g' hg
    simp at hg
  | cons first rest ih =>
    rw [List.map_cons, List.nodup_cons] at h
    have hfirst : ∀ g ∈ rest, g.hash ≠ first.hash := by
      intro g hg heq
      exact h.1 (heq ▸ List.mem_map_of_mem hg)
    intro g g' hg hg' heq
    rcases List.mem_cons.1 hg with hg | hg <;> rcases List.mem_cons.1 hg' with hg' | hg'
    · rw [hg, hg']
    · exact absurd (hg ▸ heq).symm (hfirst g' hg')
    · exact absurd (hg' ▸ heq) (hfirst g hg)
    · exact ih h.2 g g' hg hg' heq

namespace Chain

/-! ## Insertions -/

/-- The chains that insertions make of the empty one. -/
inductive Reachable : Chain → Prop
  | empty : Reachable {}
  | insert {c : Chain} (h : Header) (reachable : Reachable c) : Reachable (c.insert h)

theorem reachable_ofGenesis (genesis : Header) : (ofGenesis genesis).Reachable :=
  .insert genesis .empty

theorem hash_of_mem {c : Chain} (hc : c.Reachable) {k : Hash} {g : Header}
    (hg : c.headers.get? k = some g) : g.hash = k := by
  induction hc with
  | empty => simp at hg
  | @insert c h _ ih =>
    have hget : (c.headers.insert h.hash h).get? k = some g := hg
    rw [Table.get?_insert] at hget
    by_cases hk : h.hash = k
    · rw [if_pos hk] at hget
      rw [← Option.some.inj hget, hk]
    · rw [if_neg hk] at hget
      exact ih hget

/-- A header that is found by hash and number has both. -/
theorem header?_eq_some {c : Chain} (hc : c.Reachable) {k : Hash} {number : UInt64} {g : Header}
    (hg : c.header? k number = some g) : g.hash = k ∧ g.number = number := by
  unfold header? at hg
  obtain ⟨hget, hnumber⟩ := Option.filter_eq_some_iff.1 hg
  exact ⟨hash_of_mem hc hget, by simpa using hnumber⟩

/-- An inserted header is the canonical one of its number. -/
@[simp] theorem headerAt?_insert_self (c : Chain) (h : Header) :
    (c.insert h).headerAt? h.number = some h := by
  unfold headerAt? insert
  rw [Table.get?_insert_self, Option.bind_some, Table.get?_insert_self]

/-- An inserted header is found under its hash. -/
@[simp] theorem header?_insert_self (c : Chain) (h : Header) :
    (c.insert h).header? h.hash h.number = some h := by
  unfold header? insert
  simp

/-! ## Canonical numbers -/

variable {c : Chain} {g h : Header} {number : UInt64} {k : Hash}

/-- Below an inserted header the canonical hashes stay. -/
theorem canonical_insert_of_lt (hlt : number < g.number) :
    (c.insert g).canonical.get? number = c.canonical.get? number := by
  have hne : g.number ≠ number := by
    intro heq
    rw [heq] at hlt
    exact UInt64.lt_irrefl number hlt
  have hle : number ≤ g.number := UInt64.le_of_lt hlt
  unfold insert
  dsimp only
  rw [Table.get?_insert, if_neg hne]
  split
  · rw [Table.get?_filterKeys, if_pos (decide_eq_true hle)]
  · rfl

/-- A canonical hash after an insertion is that of the new header, or it was canonical before. -/
theorem canonical_of_insert (hk : (c.insert g).canonical.get? number = some k) :
    (number = g.number ∧ k = g.hash) ∨ (number ≠ g.number ∧ c.canonical.get? number = some k) := by
  unfold insert at hk
  dsimp only at hk
  rw [Table.get?_insert] at hk
  by_cases hnumber : g.number = number
  · rw [if_pos hnumber] at hk
    exact .inl ⟨hnumber.symm, (Option.some.inj hk).symm⟩
  · rw [if_neg hnumber] at hk
    refine .inr ⟨fun heq => hnumber heq.symm, ?_⟩
    split at hk
    · rw [Table.get?_filterKeys] at hk
      split at hk
      · exact hk
      · simp at hk
    · exact hk

theorem get?_headers_insert :
    (c.insert g).headers.get? k = if g.hash = k then some g else c.headers.get? k := by
  unfold insert
  exact Table.get?_insert c.headers g.hash k g

/-- The header is the canonical one of some number. -/
def Has (c : Chain) (h : Header) : Prop := ∃ number, c.headerAt? number = some h

theorem headerAt?_eq_some_iff : c.headerAt? number = some h ↔
    ∃ k, c.canonical.get? number = some k ∧ c.headers.get? k = some h := by
  unfold headerAt?
  exact Option.bind_eq_some_iff

theorem has_of_insert (hh : (c.insert g).Has h) : h = g ∨ c.Has h := by
  obtain ⟨number, hnumber⟩ := hh
  obtain ⟨k, hk, hget⟩ := headerAt?_eq_some_iff.1 hnumber
  rw [get?_headers_insert] at hget
  by_cases hhash : g.hash = k
  · rw [if_pos hhash] at hget
    exact .inl (Option.some.inj hget).symm
  · rw [if_neg hhash] at hget
    rcases canonical_of_insert hk with ⟨-, hnew⟩ | ⟨-, hold⟩
    · exact absurd hnew.symm hhash
    · exact .inr ⟨number, headerAt?_eq_some_iff.2 ⟨k, hold, hget⟩⟩

/-- Every canonical header is found under its own number and hash. -/
def Indexed (c : Chain) : Prop :=
  ∀ number k, c.canonical.get? number = some k →
    ∃ h, c.headers.get? k = some h ∧ h.number = number ∧ h.hash = k

theorem not_has_empty (h : Header) : ¬ Has {} h := by
  rintro ⟨number, hnumber⟩
  simp [Chain.headerAt?] at hnumber

theorem indexed_empty : Indexed {} := by
  intro number k hk
  simp at hk

theorem Indexed.headerAt? (hc : c.Indexed) (hh : c.headerAt? number = some h) :
    h.number = number ∧ c.canonical.get? number = some h.hash := by
  obtain ⟨k, hk, hget⟩ := headerAt?_eq_some_iff.1 hh
  obtain ⟨h', hget', hnumber, hhash⟩ := hc number k hk
  obtain rfl : h' = h := Option.some.inj (hget'.symm.trans hget)
  exact ⟨hnumber, by rw [hhash, hk]⟩

/-- A canonical header is found by its hash and number. -/
theorem Indexed.header? (hc : c.Indexed) (hh : c.headerAt? number = some h) :
    c.header? h.hash h.number = some h := by
  obtain ⟨k, hk, hget⟩ := headerAt?_eq_some_iff.1 hh
  obtain ⟨h', hget', hnumber, hhash⟩ := hc number k hk
  obtain rfl : h' = h := Option.some.inj (hget'.symm.trans hget)
  rw [Chain.header?, hhash, hget]
  simp

theorem Indexed.insert (hc : c.Indexed) (hhash : ∀ h, c.Has h → h.hash = g.hash → h = g) :
    (c.insert g).Indexed := by
  intro number k hk
  rw [get?_headers_insert]
  rcases canonical_of_insert hk with ⟨hnumber, rfl⟩ | ⟨-, hold⟩
  · exact ⟨g, if_pos rfl, hnumber.symm, rfl⟩
  · obtain ⟨h, hget, hnumber, rfl⟩ := hc number k hold
    by_cases hsame : g.hash = h.hash
    · have heq : h = g :=
        hhash h ⟨number, headerAt?_eq_some_iff.2 ⟨h.hash, hold, hget⟩⟩ hsame.symm
      rw [if_pos hsame]
      exact ⟨g, rfl, heq ▸ hnumber, hsame⟩
    · rw [if_neg hsame]
      exact ⟨h, hget, hnumber, rfl⟩

theorem has_ofGenesis {genesis : Header} (hh : (ofGenesis genesis).Has h) : h = genesis :=
  (has_of_insert hh).resolve_right (not_has_empty h)

theorem indexed_ofGenesis (genesis : Header) : (ofGenesis genesis).Indexed :=
  indexed_empty.insert fun h hh => absurd hh (not_has_empty h)

/-- Below an inserted header the canonical headers stay. -/
theorem headerAt?_insert_of_lt (hc : c.Indexed) (hhash : ∀ h, c.Has h → h.hash = g.hash → h = g)
    (hlt : number < g.number) : (c.insert g).headerAt? number = c.headerAt? number := by
  unfold Chain.headerAt?
  rw [canonical_insert_of_lt hlt]
  cases hk : c.canonical.get? number with
  | none => rfl
  | some k =>
    obtain ⟨h, hget, -, rfl⟩ := hc number k hk
    rw [Option.bind_some, Option.bind_some, get?_headers_insert]
    by_cases hsame : g.hash = h.hash
    · have heq : h = g :=
        hhash h ⟨number, headerAt?_eq_some_iff.2 ⟨h.hash, hk, hget⟩⟩ hsame.symm
      rw [if_pos hsame, hget, heq]
    · rw [if_neg hsame]

/-! ## The head -/

/-- Every canonical number is below `number`. -/
def Below (c : Chain) (number : UInt64) : Prop :=
  ∀ m, (c.canonical.get? m).isSome → m < number

theorem le_height {top m : UInt64} (htop : c.height? = some top)
    (hm : (c.canonical.get? m).isSome) : m ≤ top := by
  obtain ⟨older, hkeys⟩ := List.getLast?_eq_some_iff.1 htop
  have hmem : m ∈ c.canonical.keys := (Table.mem_keys_iff c.canonical m).2 hm
  have hascending : (older ++ [top]).Pairwise (· < ·) := hkeys ▸ c.canonical.ascending
  rw [hkeys] at hmem
  rcases List.mem_append.1 hmem with hmem | hmem
  · exact UInt64.le_of_lt ((List.pairwise_append.1 hascending).2.2 m hmem top (by simp))
  · rw [List.mem_singleton.1 hmem]
    exact UInt64.le_refl top

/-- The head is canonical at its own number, and nothing is canonical above it. -/
theorem Indexed.head? (hc : c.Indexed) (hh : c.head? = some h) :
    c.headerAt? h.number = some h ∧ ∀ number, h.number < number → c.Below number := by
  obtain ⟨top, htop, hat⟩ := Option.bind_eq_some_iff.1 hh
  have hnumber : h.number = top := (hc.headerAt? hat).1
  rw [hnumber]
  refine ⟨hat, ?_⟩
  intro number hlt m hm
  have hle := le_height htop hm
  rw [UInt64.le_iff_toNat_le] at hle
  rw [UInt64.lt_iff_toNat_lt] at hlt ⊢
  omega

/-- Above the new head there is nothing, as there was before. -/
theorem Below.headerAt?_insert (hbelow : c.Below g.number) (hlt : g.number < number) :
    (c.insert g).headerAt? number = none ∧ c.headerAt? number = none := by
  have hnone : c.canonical.get? number = none := by
    cases hk : c.canonical.get? number with
    | none => rfl
    | some k =>
      have hnumber := hbelow number (by simp [hk])
      exact absurd (UInt64.lt_trans hlt hnumber) (UInt64.lt_irrefl _)
  constructor
  · cases hat : (c.insert g).headerAt? number with
    | none => rfl
    | some h =>
      obtain ⟨k, hk, -⟩ := headerAt?_eq_some_iff.1 hat
      rcases canonical_of_insert hk with ⟨heq, -⟩ | ⟨-, hold⟩
      · exact absurd (heq ▸ hlt) (UInt64.lt_irrefl _)
      · simp [hnone] at hold
  · rw [Chain.headerAt?, hnone]
    rfl

/-- A new head leaves all other canonical headers as they are. -/
theorem headerAt?_insert_of_below (hc : c.Indexed)
    (hhash : ∀ h, c.Has h → h.hash = g.hash → h = g) (hbelow : c.Below g.number) :
    (c.insert g).headerAt? number = if number = g.number then some g else c.headerAt? number := by
  by_cases heq : number = g.number
  · rw [if_pos heq, heq, headerAt?_insert_self]
  · rw [if_neg heq]
    by_cases hlt : number < g.number
    · exact headerAt?_insert_of_lt hc hhash hlt
    · have hgt : g.number < number := by
        have hne : number.toNat ≠ g.number.toNat := fun h => heq (UInt64.toNat_inj.1 h)
        rw [UInt64.lt_iff_toNat_lt] at hlt ⊢
        omega
      obtain ⟨hnew, hold⟩ := hbelow.headerAt?_insert hgt
      rw [hnew, hold]

theorem Below.insert (hbelow : c.Below g.number) (hlt : g.number < number) :
    (c.insert g).Below number := by
  intro m hm
  obtain ⟨k, hk⟩ := Option.isSome_iff_exists.1 hm
  rcases canonical_of_insert hk with ⟨rfl, -⟩ | ⟨-, hold⟩
  · exact hlt
  · exact UInt64.lt_trans (hbelow m (by simp [hold])) hlt

end Chain

end CommitteeConsensus
