import CommitteeConsensus.Proofs.Json.Data
import Mathlib.Data.List.Forall2

/-! # Records in any order

    A record may be written as an object in many ways: its fields in any order, those that hold
    their default left out, members of other names in between (`Lists`). `fields?_of_lists`: the
    fields are found all the same.

    Members are looked up by the text of their key, so how a key is spelled plays no part, and no
    more than one member answers to a name, so their order plays none.
-/

namespace CommitteeConsensus.Json

/-- A field of a record: the name it stands under, the values that say what it holds, and whether
    it holds its default. -/
structure Field where
  name : String
  Tells : Json → Prop
  IsDefault : Prop

/-- Members for the fields of a record in order. One that holds its default may be left out. -/
inductive ListsInOrder : List Field → List (List UInt8 × Json) → Prop
  | nil : ListsInOrder [] []
  | listed {f : Field} {fields : List Field} {key : List UInt8} {value : Json}
      {members : List (List UInt8 × Json)} (name : keyText? key = some (ascii f.name))
      (tells : f.Tells value) (rest : ListsInOrder fields members) :
      ListsInOrder (f :: fields) ((key, value) :: members)
  | omitted {f : Field} {fields : List Field} {members : List (List UInt8 × Json)}
      (isDefault : f.IsDefault) (rest : ListsInOrder fields members) :
      ListsInOrder (f :: fields) members

/-- The member's key is a text, and the name of no field. -/
def Unknown (fields : List Field) (m : List UInt8 × Json) : Prop :=
  ∃ text, keyText? m.1 = some text ∧ ∀ f ∈ fields, text ≠ ascii f.name

/-- Members of an object that are those of a record and unknown ones, in any order. -/
def Lists (fields : List Field) (members : List (List UInt8 × Json)) : Prop :=
  ∃ known unknown, ListsInOrder fields known ∧ (∀ m ∈ unknown, Unknown fields m)
    ∧ members.Perm (known ++ unknown)

theorem ListsInOrder.lists {fields : List Field} {members : List (List UInt8 × Json)}
    (h : ListsInOrder fields members) : Lists fields members :=
  ⟨members, [], h, by simp, by simp⟩

/-! ## Keys -/

/-- A member under the text of its key. -/
def keyed (m : List UInt8 × Json) : List UInt8 × Json := ((keyText? m.1).getD [], m.2)

theorem mapM_keyed {members : List (List UInt8 × Json)}
    (h : ∀ m ∈ members, ∃ text, keyText? m.1 = some text) :
    members.mapM (fun m => (keyText? m.1).bind fun text => some (text, m.2))
      = some (members.map keyed) := by
  apply mapM_eq_some_map
  intro m hm
  obtain ⟨text, htext⟩ := h m hm
  simp [keyed, htext]

theorem ListsInOrder.exists_field {fields : List Field} {members : List (List UInt8 × Json)}
    (h : ListsInOrder fields members) :
    ∀ m ∈ members, ∃ f ∈ fields, keyText? m.1 = some (ascii f.name) := by
  induction h with
  | nil => simp
  | listed name _ _ ih =>
    intro m hm
    rcases List.mem_cons.1 hm with rfl | hm
    · exact ⟨_, List.mem_cons_self, name⟩
    · obtain ⟨f, hf, hname⟩ := ih m hm
      exact ⟨f, List.mem_cons_of_mem _ hf, hname⟩
  | omitted _ _ ih =>
    intro m hm
    obtain ⟨f, hf, hname⟩ := ih m hm
    exact ⟨f, List.mem_cons_of_mem _ hf, hname⟩

theorem Lists.exists_text {fields : List Field} {members : List (List UInt8 × Json)}
    (h : Lists fields members) : ∀ m ∈ members, ∃ text, keyText? m.1 = some text := by
  obtain ⟨known, unknown, hknown, hunknown, hperm⟩ := h
  intro m hm
  rcases List.mem_append.1 (hperm.mem_iff.1 hm) with hm | hm
  · obtain ⟨f, -, hname⟩ := hknown.exists_field m hm
    exact ⟨_, hname⟩
  · obtain ⟨text, htext, -⟩ := hunknown m hm
    exact ⟨text, htext⟩

/-! ## Looking up -/

/-- What is found for a field. -/
def Field.Found (f : Field) : Option Json → Prop
  | none => f.IsDefault
  | some value => f.Tells value

/-- The members of an object under a name. -/
def under (name : String) (members : List (List UInt8 × Json)) : List (List UInt8 × Json) :=
  (members.map keyed).filter (·.1 = ascii name)

theorem under_cons (name : String) (m : List UInt8 × Json) (members : List (List UInt8 × Json)) :
    under name (m :: members)
      = if (keyed m).1 = ascii name then keyed m :: under name members else under name members := by
  simp [under, List.filter_cons]

theorem under_append (name : String) (members members' : List (List UInt8 × Json)) :
    under name (members ++ members') = under name members ++ under name members' := by
  simp [under]

theorem under_perm (name : String) {members members' : List (List UInt8 × Json)}
    (h : members.Perm members') : (under name members).Perm (under name members') :=
  (h.map keyed).filter _

theorem under_eq_nil {name : String} {members : List (List UInt8 × Json)}
    (h : ∀ m ∈ members, ∃ text, keyText? m.1 = some text ∧ text ≠ ascii name) :
    under name members = [] := by
  rw [under, List.filter_eq_nil_iff]
  intro e he
  obtain ⟨m, hm, rfl⟩ := List.mem_map.1 he
  obtain ⟨text, htext, hne⟩ := h m hm
  simpa [keyed, htext] using hne

theorem member?_of_under {name : String} {members : List (List UInt8 × Json)} {found : Option Json}
    (h : under name members = found.toList.map (ascii name, ·)) :
    member? (members.map keyed) name = some found := by
  have hunder : (members.map keyed).filter (·.1 = ascii name) = under name members := rfl
  rw [member?, hunder, h]
  cases found with
  | none => rfl
  | some value => rfl

theorem ListsInOrder.under_eq_nil {fields : List Field} {members : List (List UInt8 × Json)}
    (h : ListsInOrder fields members) {name : String}
    (hname : ascii name ∉ fields.map fun f => ascii f.name) : under name members = [] := by
  apply Json.under_eq_nil
  intro m hm
  obtain ⟨f, hf, htext⟩ := h.exists_field m hm
  refine ⟨_, htext, ?_⟩
  intro heq
  exact hname (List.mem_map.2 ⟨f, hf, heq⟩)

/-- A field has its member, or no member and its default. -/
theorem ListsInOrder.exists_under {fields : List Field} {members : List (List UInt8 × Json)}
    (h : ListsInOrder fields members) (hnodup : (fields.map fun f => ascii f.name).Nodup) :
    ∀ f ∈ fields, ∃ found : Option Json,
      under f.name members = found.toList.map (ascii f.name, ·) ∧ f.Found found := by
  induction h with
  | nil => simp
  | @listed f fields key value members name tells rest ih =>
    rw [List.map_cons, List.nodup_cons] at hnodup
    have hkey : keyed (key, value) = (ascii f.name, value) := by simp [keyed, name]
    intro g hg
    rw [under_cons, hkey]
    rcases List.mem_cons.1 hg with rfl | hg
    · exact ⟨some value, by simp [rest.under_eq_nil hnodup.1], tells⟩
    · obtain ⟨found, hfound, hholds⟩ := ih hnodup.2 g hg
      have hne : ascii f.name ≠ ascii g.name := by
        intro heq
        exact hnodup.1 (List.mem_map.2 ⟨g, hg, heq.symm⟩)
      exact ⟨found, by rw [if_neg hne, hfound], hholds⟩
  | @omitted f fields members isDefault rest ih =>
    rw [List.map_cons, List.nodup_cons] at hnodup
    intro g hg
    rcases List.mem_cons.1 hg with rfl | hg
    · exact ⟨none, rest.under_eq_nil hnodup.1, isDefault⟩
    · exact ih hnodup.2 g hg

/-- The order of members and the unknown ones among them make no difference to a look-up. -/
theorem Lists.exists_member {fields : List Field} {members : List (List UInt8 × Json)}
    (h : Lists fields members) (hnodup : (fields.map fun f => ascii f.name).Nodup) :
    ∀ f ∈ fields, ∃ found, member? (members.map keyed) f.name = some found ∧ f.Found found := by
  obtain ⟨known, unknown, hknown, hunknown, hperm⟩ := h
  intro f hf
  obtain ⟨found, hfound, hholds⟩ := hknown.exists_under hnodup f hf
  have hnone : under f.name unknown = [] := by
    apply under_eq_nil
    intro m hm
    obtain ⟨text, htext, hne⟩ := hunknown m hm
    exact ⟨text, htext, hne f hf⟩
  have hsame : (under f.name members).Perm (found.toList.map (ascii f.name, ·)) := by
    have hunder := under_perm f.name hperm
    rwa [under_append, hnone, List.append_nil, hfound] at hunder
  refine ⟨found, member?_of_under ?_, hholds⟩
  -- a list of one item at most has no other order
  cases found with
  | none => exact List.perm_nil.1 hsame
  | some value => exact List.perm_singleton.1 hsame

/-- What holds of each item that is read holds along the list. -/
theorem exists_mapM {α β : Type} {read : α → Option β} {P : α → β → Prop} {l : List α}
    (h : ∀ a ∈ l, ∃ b, read a = some b ∧ P a b) :
    ∃ out, l.mapM read = some out ∧ List.Forall₂ P l out := by
  induction l with
  | nil => exact ⟨[], rfl, .nil⟩
  | cons a l ih =>
    obtain ⟨b, hb, hP⟩ := h a (by simp)
    obtain ⟨out, hout, hrest⟩ := ih fun c hc => h c (List.mem_cons_of_mem a hc)
    exact ⟨b :: out, by simp [List.mapM_cons, hb, hout], .cons hP hrest⟩

/-- The fields of a record are found in every object that lists them. -/
theorem fields?_of_lists {fields : List Field} {members : List (List UInt8 × Json)}
    (h : Lists fields members) (hnodup : (fields.map fun f => ascii f.name).Nodup) :
    ∃ found, (object members).fields? (fields.map Field.name) = some found
      ∧ List.Forall₂ Field.Found fields found := by
  obtain ⟨found, hfound, hholds⟩ := exists_mapM (h.exists_member hnodup)
  refine ⟨found, ?_, hholds⟩
  show ((members.mapM fun m => (keyText? m.1).bind fun text => some (text, m.2)).bind
    fun keyed => (fields.map Field.name).mapM (member? keyed)) = some found
  rw [mapM_keyed h.exists_text, Option.bind_some, List.mapM_map]
  exact hfound

/-- A field is read from what is found for it. -/
theorem orDefault?_of_found {α : Type} {f : Field} {read : Json → Option α} {a default : α}
    {found : Option Json} (h : f.Found found) (htells : ∀ value, f.Tells value → read value = some a)
    (hdefault : f.IsDefault → a = default) : orDefault? read default found = some a := by
  cases found with
  | none => rw [orDefault?, hdefault h]
  | some value => exact htells value h

end CommitteeConsensus.Json
