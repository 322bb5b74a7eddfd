import CommitteeConsensus.Json.Decode
import CommitteeConsensus.Proofs.Table

/-! # The extent of values that were read

    A text of so many bytes describes a value of at most so many parts (`parse?_weight_le`), so
    data that was read from a short text has short lists. The bound is what makes stored
    snapshots readable: their lists are counted by words.

    The reading machine never adds more than one part for a token, wherever it stands; the weight
    of its state counts the open containers and what they hold already.
-/

namespace CommitteeConsensus.Json

/-! ## Weight -/

mutual

/-- The number of values that a value is made of, itself included. -/
def weight : Json → Nat
  | array items => 1 + itemsWeight items
  | object members => 1 + membersWeight members
  | _ => 1

def itemsWeight : List Json → Nat
  | [] => 0
  | item :: items => weight item + itemsWeight items

def membersWeight : List (List UInt8 × Json) → Nat
  | [] => 0
  | (_, value) :: members => weight value + membersWeight members

end

theorem weight_pos (j : Json) : 0 < j.weight := by
  cases j <;> simp only [weight] <;> omega

theorem itemsWeight_append (items items' : List Json) :
    itemsWeight (items ++ items') = itemsWeight items + itemsWeight items' := by
  induction items with
  | nil => simp [itemsWeight]
  | cons item items ih =>
    rw [List.cons_append, itemsWeight, itemsWeight, ih]
    omega

theorem itemsWeight_reverse (items : List Json) : itemsWeight items.reverse = itemsWeight items := by
  induction items with
  | nil => rfl
  | cons item items ih =>
    rw [List.reverse_cons, itemsWeight_append, ih]
    simp only [itemsWeight]
    omega

theorem membersWeight_append (members members' : List (List UInt8 × Json)) :
    membersWeight (members ++ members') = membersWeight members + membersWeight members' := by
  induction members with
  | nil => simp [membersWeight]
  | cons member members ih =>
    rw [List.cons_append, membersWeight, membersWeight, ih]
    omega

theorem membersWeight_reverse (members : List (List UInt8 × Json)) :
    membersWeight members.reverse = membersWeight members := by
  induction members with
  | nil => rfl
  | cons member members ih =>
    rw [List.reverse_cons, membersWeight_append, ih]
    simp only [membersWeight]
    omega

theorem length_le_itemsWeight (items : List Json) : items.length ≤ itemsWeight items := by
  induction items with
  | nil => simp
  | cons item items ih =>
    have := weight_pos item
    rw [List.length_cons, itemsWeight]
    omega

theorem weight_le_of_mem_items {items : List Json} {j : Json} (h : j ∈ items) :
    j.weight ≤ itemsWeight items := by
  induction items with
  | nil => simp at h
  | cons item items ih =>
    rw [itemsWeight]
    rcases List.mem_cons.1 h with rfl | h
    · omega
    · have := ih h
      omega

theorem weight_le_of_mem_members {members : List (List UInt8 × Json)} {m : List UInt8 × Json}
    (h : m ∈ members) : m.2.weight ≤ membersWeight members := by
  induction members with
  | nil => simp at h
  | cons member members ih =>
    rw [membersWeight]
    rcases List.mem_cons.1 h with rfl | h
    · omega
    · have := ih h
      omega

/-! ## The machine -/

def Frame.weight : Frame → Nat
  | array items => 1 + itemsWeight items
  | object members _ => 1 + membersWeight members

def stackWeight : List Frame → Nat
  | [] => 0
  | frame :: stack => frame.weight + stackWeight stack

namespace Focus

/-- The parts of the value that have been read so far. -/
def weight : Focus → Nat
  | value stack => stackWeight stack
  | arrayStart stack => 1 + stackWeight stack
  | objectStart stack => 1 + stackWeight stack
  | key members stack => 1 + membersWeight members + stackWeight stack
  | colon _ members stack => 1 + membersWeight members + stackWeight stack
  | done v stack => v.weight + stackWeight stack

theorem begin?_weight {stack : List Frame} {t : Token} {f : Focus} (h : begin? stack t = some f) :
    f.weight = stackWeight stack + 1 := by
  cases t <;> simp only [begin?, Option.some.injEq, reduceCtorEq] at h <;> subst h <;>
    simp only [weight, Json.weight] <;> omega

theorem step?_weight_le {f f' : Focus} {t : Token} (h : f.step? t = some f') :
    f'.weight ≤ f.weight + 1 := by
  unfold step? at h
  split at h
  -- a value, an empty array, the first item of an array
  · have := begin?_weight h
    simp only [weight] at this ⊢
    omega
  · injection h with h
    subst h
    simp only [weight, Json.weight, itemsWeight]
    omega
  · have := begin?_weight h
    simp only [weight, stackWeight, Frame.weight, itemsWeight] at this ⊢
    omega
  -- an empty object, the key of a member and the colon after it
  · injection h with h
    subst h
    simp only [weight, Json.weight, membersWeight]
    omega
  · injection h with h
    subst h
    simp only [weight, membersWeight]
    omega
  · injection h with h
    subst h
    simp only [weight]
    omega
  · injection h with h
    subst h
    simp only [weight, stackWeight, Frame.weight]
    omega
  -- a value is finished: what waited for it on the stack takes it in, and grows by as much
  · injection h with h
    subst h
    simp only [weight, stackWeight, Frame.weight, itemsWeight]
    omega
  · injection h with h
    subst h
    simp only [weight, stackWeight, Frame.weight, Json.weight, itemsWeight_reverse, itemsWeight]
    omega
  · injection h with h
    subst h
    simp only [weight, stackWeight, Frame.weight, membersWeight]
    omega
  · injection h with h
    subst h
    simp only [weight, stackWeight, Frame.weight, Json.weight, membersWeight_reverse, membersWeight]
    omega
  · simp at h

theorem foldlM_weight_le {ts : List Token} {f f' : Focus} (h : ts.foldlM step? f = some f') :
    f'.weight ≤ f.weight + ts.length := by
  induction ts generalizing f with
  | nil =>
    injection h with h
    simp [h]
  | cons t ts ih =>
    simp only [List.foldlM_cons, Option.bind_eq_bind, Option.bind_eq_some_iff] at h
    obtain ⟨g, hstep, hrest⟩ := h
    have hg := step?_weight_le hstep
    have hf' := ih hrest
    rw [List.length_cons]
    omega

theorem result?_weight {f : Focus} {j : Json} (h : f.result? = some j) : f.weight = j.weight := by
  unfold result? at h
  split at h
  · injection h with h
    simp [weight, stackWeight, h]
  · simp at h

end Focus

theorem scanWithin_length_le {fuel : Nat} {s : List UInt8} {ts : List Token}
    (h : scanWithin fuel s = some ts) : ts.length ≤ fuel := by
  induction fuel generalizing s ts with
  | zero =>
    cases s with
    | nil => simp_all [scanWithin]
    | cons b s => simp [scanWithin] at h
  | succ fuel ih =>
    cases s with
    | nil => simp_all [scanWithin]
    | cons b s =>
      rw [scanWithin] at h
      split at h
      · have := ih h
        omega
      · simp only [Option.bind_eq_bind, Option.bind_eq_some_iff, Option.pure_def,
          Option.some.injEq] at h
        obtain ⟨next, -, rest, hrest, rfl⟩ := h
        have := ih hrest
        rw [List.length_cons]
        omega

/-- A value has no more parts than its text has bytes. -/
theorem parse?_weight_le {s : List UInt8} {j : Json} (h : parse? s = some j) :
    j.weight ≤ s.length := by
  simp only [parse?, ofTokens?, Option.bind_eq_some_iff] at h
  obtain ⟨ts, hscan, f, hfold, hresult⟩ := h
  have htokens := scanWithin_length_le hscan
  have hweight := Focus.foldlM_weight_le hfold
  rw [Focus.result?_weight hresult, Focus.weight, stackWeight] at hweight
  omega

/-! ## Data -/

/-- What is read item by item has one result for each item. -/
theorem mapM_eq_some {α β : Type} {f : α → Option β} {l : List α} {out : List β}
    (h : l.mapM f = some out) :
    out.length = l.length ∧ ∀ b ∈ out, ∃ a ∈ l, f a = some b := by
  induction l generalizing out with
  | nil =>
    rw [List.mapM_nil] at h
    injection h with h
    simp [← h]
  | cons a l ih =>
    simp only [List.mapM_cons, Option.bind_eq_bind, Option.bind_eq_some_iff, Option.pure_def,
      Option.some.injEq] at h
    obtain ⟨b, hb, rest, hrest, rfl⟩ := h
    obtain ⟨hlength, hmem⟩ := ih hrest
    refine ⟨by simp [hlength], ?_⟩
    intro c hc
    rcases List.mem_cons.1 hc with rfl | hc
    · exact ⟨a, by simp, hb⟩
    · obtain ⟨a', ha', hf⟩ := hmem c hc
      exact ⟨a', List.mem_cons_of_mem a ha', hf⟩

theorem list?_length_le {α : Type} {item : Json → Option α} {j : Json} {out : List α}
    (h : j.list? item = some out) : out.length ≤ j.weight := by
  cases j with
  | array items =>
    have hlength := (mapM_eq_some h).1
    have := length_le_itemsWeight items
    rw [weight]
    omega
  | _ => simp [list?] at h

/-- Each item of a list is read from a part of the value. -/
theorem list?_mem {α : Type} {item : Json → Option α} {j : Json} {out : List α}
    (h : j.list? item = some out) {a : α} (ha : a ∈ out) :
    ∃ part : Json, part.weight ≤ j.weight ∧ item part = some a := by
  cases j with
  | array items =>
    obtain ⟨part, hpart, hread⟩ := (mapM_eq_some h).2 a ha
    have := weight_le_of_mem_items hpart
    exact ⟨part, by rw [weight]; omega, hread⟩
  | _ => simp [list?] at h

theorem pair?_snd {α β : Type} {first : Json → Option α} {second : Json → Option β} {j : Json}
    {x : α × β} (h : pair? first second j = some x) :
    ∃ part : Json, part.weight ≤ j.weight ∧ second part = some x.2 := by
  unfold pair? at h
  split at h
  · next a b =>
    simp only [Option.bind_eq_bind, Option.bind_eq_some_iff, Option.pure_def,
      Option.some.injEq] at h
    obtain ⟨u, -, v, hv, rfl⟩ := h
    refine ⟨b, ?_, hv⟩
    simp only [weight, itemsWeight]
    omega
  · simp at h

section

variable {κ α : Type} [LT κ] [DecidableLT κ] [KeyOrder κ] {key : Json → Option κ}
  {value : Json → Option α} {j : Json} {t : Table κ α}

theorem table?_size_le (h : table? key value j = some t) : t.size ≤ j.weight := by
  simp only [table?, Option.bind_eq_bind, Option.bind_eq_some_iff, Option.pure_def,
    Option.some.injEq] at h
  obtain ⟨es, hes, rfl⟩ := h
  exact Nat.le_trans (Table.size_ofList_le es) (list?_length_le hes)

/-- Each value of a table is read from a part of the value. -/
theorem table?_mem (h : table? key value j = some t) {e : κ × α} (he : e ∈ t.entries) :
    ∃ part : Json, part.weight ≤ j.weight ∧ value part = some e.2 := by
  simp only [table?, Option.bind_eq_bind, Option.bind_eq_some_iff, Option.pure_def,
    Option.some.injEq] at h
  obtain ⟨es, hes, rfl⟩ := h
  obtain ⟨pair, hpair, hread⟩ := list?_mem hes (Table.mem_of_mem_ofList he)
  obtain ⟨part, hpart, hvalue⟩ := pair?_snd hread
  exact ⟨part, Nat.le_trans hpart hpair, hvalue⟩

end

theorem member?_weight_le {keyed : List (List UInt8 × Json)} {name : String} {v : Json}
    (h : member? keyed name = some (some v)) : v.weight ≤ membersWeight keyed := by
  unfold member? at h
  split at h
  · simp at h
  · next k w heq =>
    simp only [Option.some.injEq] at h
    have hmem : (k, w) ∈ keyed.filter (fun e => e.1 = ascii name) := by
      rw [heq]
      simp
    rw [← h]
    exact weight_le_of_mem_members (List.mem_filter.1 hmem).1
  · simp at h

theorem orDefault?_eq_some {α : Type} {read : Json → Option α} {default a : α} {field : Option Json}
    (h : orDefault? read default field = some a) :
    a = default ∨ ∃ v, field = some v ∧ read v = some a := by
  cases field with
  | none =>
    injection h with h
    exact .inl h.symm
  | some v => exact .inr ⟨v, rfl, h⟩

/-- Resolving the keys of an object leaves its values as they are. -/
theorem membersWeight_mapM {f : List UInt8 → Option (List UInt8)}
    {members keyed : List (List UInt8 × Json)}
    (h : members.mapM (fun m => (f m.1).bind fun k => some (k, m.2)) = some keyed) :
    membersWeight keyed = membersWeight members := by
  induction members generalizing keyed with
  | nil =>
    rw [List.mapM_nil] at h
    injection h with h
    rw [← h]
  | cons member members ih =>
    simp only [List.mapM_cons, Option.bind_eq_bind, Option.bind_eq_some_iff, Option.pure_def,
      Option.some.injEq] at h
    obtain ⟨_, ⟨k, -, rfl⟩, rest, hrest, rfl⟩ := h
    rw [membersWeight, membersWeight, ih hrest]

/-- Every field of a record is a part of the value. -/
theorem fields?_weight_le {names : List String} {j : Json} {out : List (Option Json)}
    (h : j.fields? names = some out) {v : Json} (hv : some v ∈ out) : v.weight ≤ j.weight := by
  unfold fields? at h
  split at h
  · next items =>
    -- a record written as an array has its items for fields
    split at h
    · injection h with h
      rw [← h] at hv
      have hitem : v ∈ items := by simpa [List.mem_replicate] using hv
      have := weight_le_of_mem_items hitem
      rw [weight]
      omega
    · simp at h
  · next members =>
    simp only [Option.bind_eq_bind, Option.bind_eq_some_iff, Option.pure_def] at h
    obtain ⟨keyed, hkeyed, hfields⟩ := h
    obtain ⟨name, -, hmember⟩ := (mapM_eq_some hfields).2 _ hv
    have := member?_weight_le hmember
    rw [membersWeight_mapM hkeyed] at this
    rw [weight]
    omega
  · simp at h

end CommitteeConsensus.Json
