import Mathlib.Data.List.Induction
import Mathlib.Logic.Relation
import CommitteeConsensus.Proofs.Chain.Extension
import CommitteeConsensus.Proofs.Word

/-! # Branches

    The canonical headers are a branch if their numbers leave no gap and each of them is a child
    of the one before (`IsBranch`). All of them are ancestors of the head then
    (`IsBranch.descends`).

    An insertion goes by the number of the new header and does not ask for its parent. It keeps
    the branch exactly if the parent is canonical at that moment (`IsBranch.insert_iff`): the new
    header is the next one, or takes the place of another one and of all that stood above. A
    child of a header that lost its place is put upon the branch that took it, or leaves a gap.
-/

namespace CommitteeConsensus

/-! ## Numbers -/

namespace Word

variable {a : UInt64}

theorem toNat_pred (h : a ≠ 0) : (a - 1).toNat = a.toNat - 1 := by
  have hle : (1 : UInt64) ≤ a := by
    rw [UInt64.le_iff_toNat_le]
    exact toNat_pos h
  rw [UInt64.toNat_sub_of_le a 1 hle]
  rfl

theorem pred_lt (h : a ≠ 0) : a - 1 < a := by
  have hpos := toNat_pos h
  rw [UInt64.lt_iff_toNat_lt, toNat_pred h]
  omega

end Word

/-! ## Ancestry -/

namespace Header

/-- `h` is `ancestor`, or is reached from it by going from parents to children. -/
def Descends (h ancestor : Header) : Prop :=
  Relation.ReflTransGen (fun parent child => child.IsChildOf parent) ancestor h

/-- Each header is a child of `genesis` or of an earlier one. -/
def ParentsFirst (genesis : Header) (headers : List Header) : Prop :=
  ∀ before h after, headers = before ++ h :: after →
    h.number ≠ 0 ∧ ∃ parent ∈ genesis :: before, h.IsChildOf parent

theorem parentsFirst_nil {genesis : Header} : ParentsFirst genesis [] := by
  intro before h after heq
  simp at heq

theorem ParentsFirst.append_singleton {genesis h parent : Header} {headers : List Header}
    (hheaders : ParentsFirst genesis headers) (hnumber : h.number ≠ 0)
    (hparent : parent ∈ genesis :: headers) (hchild : h.IsChildOf parent) :
    ParentsFirst genesis (headers ++ [h]) := by
  intro before g after heq
  rcases List.eq_nil_or_concat after with rfl | ⟨after, last, rfl⟩
  · obtain ⟨rfl, hlast⟩ := List.append_inj' heq rfl
    obtain ⟨rfl, -⟩ := List.cons.inj hlast
    exact ⟨hnumber, parent, hparent, hchild⟩
  · have hinit : headers = before ++ g :: after := by
      rw [List.concat_eq_append, ← List.cons_append, ← List.append_assoc] at heq
      exact (List.append_inj' heq rfl).1
    exact hheaders before g after hinit

end Header

namespace Chain

variable {c : Chain} {genesis g h : Header} {headers : List Header} {number top : UInt64}

/-! ## Insertions anywhere -/

section

variable (hc : c.Indexed) (hhash : ∀ h, c.Has h → h.hash = g.hash → h = g)

include hc hhash

/-- What is replaced is another header, since no other one has this hash. -/
theorem any_canonical_ne : (c.canonical.get? g.number).any (· ≠ g.hash)
    = (c.headerAt? g.number).any (· ≠ g) := by
  cases hk : c.canonical.get? g.number with
  | none => simp [Chain.headerAt?, hk]
  | some k =>
    obtain ⟨h, hget, -, rfl⟩ := hc g.number k hk
    have hat : c.headerAt? g.number = some h := headerAt?_eq_some_iff.2 ⟨h.hash, hk, hget⟩
    have hsame : h.hash = g.hash ↔ h = g := ⟨hhash h ⟨g.number, hat⟩, fun heq => heq ▸ rfl⟩
    simp [hat, hsame]

/-- Headers above the new one are given up if it replaces another one. -/
theorem headerAt?_insert_of_gt (hlt : g.number < number) : (c.insert g).headerAt? number
    = if (c.headerAt? g.number).any (· ≠ g) then none else c.headerAt? number := by
  have hcanonical : (c.insert g).canonical.get? number
      = if (c.headerAt? g.number).any (· ≠ g) then none else c.canonical.get? number := by
    have hne : g.number ≠ number := fun heq => UInt64.lt_irrefl number (heq ▸ hlt)
    have hnot : ¬ number ≤ g.number := UInt64.not_le.2 hlt
    unfold insert
    dsimp only
    rw [Table.get?_insert, if_neg hne, any_canonical_ne hc hhash]
    split
    · rw [Table.get?_filterKeys, if_neg (by simpa using hnot)]
    · rfl
  unfold Chain.headerAt? at hcanonical ⊢
  rw [hcanonical]
  split
  · rfl
  · cases hk : c.canonical.get? number with
    | none => rfl
    | some k =>
      obtain ⟨h, hget, -, rfl⟩ := hc number k hk
      rw [Option.bind_some, Option.bind_some, get?_headers_insert]
      by_cases hsame : g.hash = h.hash
      · have heq : h = g :=
          hhash h ⟨number, headerAt?_eq_some_iff.2 ⟨h.hash, hk, hget⟩⟩ hsame.symm
        rw [if_pos hsame, hget, heq]
      · rw [if_neg hsame]

/-- An insertion gives the new header its number, leaves what is below, and what is above too
    unless another header is replaced. -/
theorem headerAt?_insert (number : UInt64) : (c.insert g).headerAt? number
    = if number = g.number then some g
      else if g.number < number ∧ (c.headerAt? g.number).any (· ≠ g) then none
      else c.headerAt? number := by
  by_cases hself : number = g.number
  · rw [if_pos hself, hself, headerAt?_insert_self]
  · rw [if_neg hself]
    by_cases hlt : number < g.number
    · have hnot : ¬ g.number < number := fun h => UInt64.lt_irrefl _ (UInt64.lt_trans hlt h)
      rw [headerAt?_insert_of_lt hc hhash hlt, if_neg fun h => hnot h.1]
    · have hgt : g.number < number := by
        have hne : number.toNat ≠ g.number.toNat := fun h => hself (UInt64.toNat_inj.1 h)
        rw [UInt64.lt_iff_toNat_lt] at hlt ⊢
        omega
      rw [headerAt?_insert_of_gt hc hhash hgt]
      simp [hgt]

end

theorem Indexed.extend (hc : c.Indexed) (hhash : HashesIdentify fun g => g ∈ headers ∨ c.Has g) :
    (c.extend headers).Indexed := by
  induction headers using List.reverseRecOn with
  | nil => exact hc
  | append_singleton before h ih =>
    rw [extend_append_singleton]
    have hbefore : (c.extend before).Indexed :=
      ih (hhash.mono fun g hg => hg.imp_left (List.mem_append_left _))
    apply hbefore.insert
    intro g hg heq
    exact hhash g h ((has_of_extend hg).imp_left (List.mem_append_left _)) (.inl (by simp)) heq

/-! ## Branches -/

/-- The canonical numbers are those up to `top`, and each canonical header is a child of the
    canonical one before it. -/
structure IsBranch (c : Chain) (top : UInt64) : Prop where
  spans : ∀ k, (∃ h, c.headerAt? k = some h) ↔ k ≤ top
  child : ∀ k h, k ≠ 0 → c.headerAt? k = some h →
    ∃ parent, c.headerAt? (k - 1) = some parent ∧ h.IsChildOf parent

theorem IsBranch.height? (hbranch : c.IsBranch top) (hc : c.Indexed) : c.height? = some top := by
  obtain ⟨h, hat⟩ := (hbranch.spans top).2 (UInt64.le_refl top)
  obtain ⟨k, hk, -⟩ := headerAt?_eq_some_iff.1 hat
  have hmem : top ∈ c.canonical.keys :=
    (Table.mem_keys_iff c.canonical top).2 (Option.isSome_iff_exists.2 ⟨k, hk⟩)
  cases hlast : c.height? with
  | none =>
    rw [List.getLast?_eq_none_iff.1 hlast] at hmem
    simp at hmem
  | some last =>
    have hkey : last ∈ c.canonical.keys := List.mem_of_getLast? hlast
    obtain ⟨k', hk'⟩ :=
      Option.isSome_iff_exists.1 ((Table.mem_keys_iff c.canonical last).1 hkey)
    obtain ⟨h', hget', -⟩ := hc last k' hk'
    have hle : last ≤ top :=
      (hbranch.spans last).1 ⟨h', headerAt?_eq_some_iff.2 ⟨k', hk', hget'⟩⟩
    have hge : top ≤ last := le_height hlast (Option.isSome_iff_exists.2 ⟨k, hk⟩)
    rw [UInt64.le_antisymm hle hge]

/-- A header of a branch is an ancestor of all that stand above it. -/
theorem IsBranch.descends_of_le (hbranch : c.IsBranch top) {k : UInt64} (hle : number ≤ k)
    (hg : c.headerAt? number = some g) (hh : c.headerAt? k = some h) : h.Descends g := by
  obtain ⟨distance, hdistance⟩ : ∃ distance, k.toNat = number.toNat + distance :=
    Nat.exists_eq_add_of_le (UInt64.le_iff_toNat_le.1 hle)
  induction distance generalizing k h with
  | zero =>
    have hsame : k = number := UInt64.toNat_inj.1 hdistance
    rw [hsame, hg] at hh
    rw [Option.some.inj hh]
    exact Relation.ReflTransGen.refl
  | succ distance ih =>
    have hk : k ≠ 0 := by
      intro hzero
      rw [hzero] at hdistance
      simp at hdistance
    obtain ⟨parent, hparent, hchild⟩ := hbranch.child k h hk hh
    have hpred : (k - 1).toNat = number.toNat + distance := by
      rw [Word.toNat_pred hk]
      omega
    have hle' : number ≤ k - 1 := by
      rw [UInt64.le_iff_toNat_le]
      omega
    exact (ih hle' hparent hpred).tail hchild

/-- Whatever is canonical on a branch is the head or an ancestor of it. -/
theorem IsBranch.descends {head : Header} (hbranch : c.IsBranch top) (hc : c.Indexed)
    (hhead : c.head? = some head) (hg : c.headerAt? number = some g) : head.Descends g := by
  have hat : c.headerAt? top = some head := by
    rw [Chain.head?, hbranch.height? hc] at hhead
    exact hhead
  exact hbranch.descends_of_le ((hbranch.spans number).1 ⟨g, hg⟩) hg hat

theorem isBranch_ofGenesis (hgenesis : genesis.number = 0) : (ofGenesis genesis).IsBranch 0 := by
  have hat : ∀ k, (ofGenesis genesis).headerAt? k = if k = 0 then some genesis else none := by
    intro k
    have hempty : ∀ k, Chain.headerAt? {} k = none := fun _ => rfl
    rw [ofGenesis, headerAt?_insert indexed_empty fun h hh => absurd hh (not_has_empty h),
      hgenesis, hempty, hempty]
    simp
  constructor
  · intro k
    rw [hat]
    by_cases hk : k = 0
    · simp [hk]
    · have hnot : ¬ k ≤ 0 := by
        rw [UInt64.le_iff_toNat_le]
        have hpos := Word.toNat_pos hk
        simpa using hpos.ne'
      simp [hk, hnot]
  · intro k h hk hh
    rw [hat, if_neg hk] at hh
    simp at hh

/-! ## What keeps a branch -/

section

variable (hbranch : c.IsBranch top) (hc : c.Indexed)
  (hhash : ∀ h, c.Has h → h.hash = g.hash → h = g) (hnumber : g.number ≠ 0)

include hc hhash

/-- A header that is canonical already changes nothing. -/
theorem headerAt?_insert_of_canonical (hat : c.headerAt? g.number = some g) (number : UInt64) :
    (c.insert g).headerAt? number = c.headerAt? number := by
  rw [headerAt?_insert hc hhash]
  by_cases hself : number = g.number
  · rw [if_pos hself, hself, hat]
  · rw [if_neg hself, hat]
    simp

include hbranch

/-- A header that is not canonical yet is the last one of a branch. -/
theorem IsBranch.headerAt?_insert_of_new (hnew : c.headerAt? g.number ≠ some g)
    (number : UInt64) : (c.insert g).headerAt? number
      = if number = g.number then some g
        else if g.number < number then none else c.headerAt? number := by
  rw [headerAt?_insert hc hhash]
  cases hold : c.headerAt? g.number with
  | none =>
    -- nothing is canonical at its number, so nothing is above
    have habove : g.number < number → c.headerAt? number = none := by
      intro hlt
      cases hat : c.headerAt? number with
      | none => rfl
      | some h =>
        have hle : g.number ≤ top :=
          UInt64.le_trans (UInt64.le_of_lt hlt) ((hbranch.spans number).1 ⟨h, hat⟩)
        obtain ⟨h', hh'⟩ := (hbranch.spans g.number).2 hle
        rw [hold] at hh'
        simp at hh'
    by_cases hlt : g.number < number
    · simp [hlt, habove hlt]
    · simp [hlt]
  | some h =>
    -- another header is replaced, and all above it is given up
    have hne : h ≠ g := fun heq => hnew (heq ▸ hold)
    simp [hne]

include hnumber

/-- A child of a canonical header is the last one of a branch once it has been inserted. -/
theorem IsBranch.insert_of_new (hnew : c.headerAt? g.number ≠ some g) {parent : Header}
    (hparent : c.headerAt? (g.number - 1) = some parent) (hchild : g.IsChildOf parent) :
    (c.insert g).IsBranch g.number := by
  have hat := hbranch.headerAt?_insert_of_new hc hhash hnew
  have hbelow : ∀ {k}, k < g.number → (c.insert g).headerAt? k = c.headerAt? k :=
    fun hlt => headerAt?_insert_of_lt hc hhash hlt
  have hnext : g.number - 1 ≤ top := (hbranch.spans (g.number - 1)).1 ⟨parent, hparent⟩
  constructor
  · -- what is below stays, and what is above is given up
    intro k
    rcases Nat.lt_trichotomy k.toNat g.number.toNat with hlt | heq | hgt
    · have hpred := Word.toNat_pred hnumber
      have hlt' : k < g.number := UInt64.lt_iff_toNat_lt.2 hlt
      rw [hbelow hlt', hbranch.spans]
      simp only [UInt64.le_iff_toNat_le] at hnext ⊢
      omega
    · obtain rfl : k = g.number := UInt64.toNat_inj.1 heq
      simp
    · have hgt' : g.number < k := UInt64.lt_iff_toNat_lt.2 hgt
      have hne : k ≠ g.number := fun heq => UInt64.lt_irrefl k (heq ▸ hgt')
      rw [hat, if_neg hne, if_pos hgt']
      simpa using hgt'
  · intro k h hk hh
    rw [hat] at hh
    split at hh
    · next heq =>
      obtain rfl : g = h := Option.some.inj hh
      rw [heq, hbelow (Word.pred_lt hnumber)]
      exact ⟨parent, hparent, hchild⟩
    · split at hh
      · simp at hh
      · next hnot =>
        have hle : k ≤ g.number := UInt64.not_lt.1 hnot
        obtain ⟨parent', hparent', hchild'⟩ := hbranch.child k h hk hh
        rw [hbelow (UInt64.lt_of_lt_of_le (Word.pred_lt hk) hle)]
        exact ⟨parent', hparent', hchild'⟩

/-- An insertion keeps a branch exactly if the parent of the new header is canonical. -/
theorem IsBranch.insert_iff : (∃ top', (c.insert g).IsBranch top')
    ↔ ∃ parent, c.headerAt? (g.number - 1) = some parent ∧ g.IsChildOf parent := by
  constructor
  · intro hinsert
    obtain ⟨top', hinsert⟩ := hinsert
    obtain ⟨parent, hparent, hchild⟩ :=
      hinsert.child g.number g hnumber (headerAt?_insert_self c g)
    rw [headerAt?_insert_of_lt hc hhash (Word.pred_lt hnumber)] at hparent
    exact ⟨parent, hparent, hchild⟩
  · intro hparents
    obtain ⟨parent, hparent, hchild⟩ := hparents
    by_cases hat : c.headerAt? g.number = some g
    · refine ⟨top, ?_, ?_⟩
      · intro k
        rw [headerAt?_insert_of_canonical hc hhash hat]
        exact hbranch.spans k
      · intro k h hk hh
        rw [headerAt?_insert_of_canonical hc hhash hat] at hh ⊢
        exact hbranch.child k h hk hh
    · exact ⟨g.number, hbranch.insert_of_new hc hhash hnumber hat hparent hchild⟩

end

/-! ## Insertions on top of a genesis header -/

section

variable (hhash : HashesIdentify (· ∈ genesis :: headers))

theorem mem_cons_of_has_ofGenesis (hg : g ∈ headers ∨ (ofGenesis genesis).Has g) :
    g ∈ genesis :: headers := by
  rcases hg with hmem | hroot
  · exact List.mem_cons_of_mem genesis hmem
  · rw [has_ofGenesis hroot]
    exact List.mem_cons_self

include hhash

theorem indexed_extend_ofGenesis : ((ofGenesis genesis).extend headers).Indexed :=
  (indexed_ofGenesis genesis).extend (hhash.mono fun _ => mem_cons_of_has_ofGenesis)

/-- One more header keeps the branch exactly if its parent is canonical. -/
theorem isBranch_append_iff {before after : List Header} (hheaders : headers = before ++ h :: after)
    (hbranch : ((ofGenesis genesis).extend before).IsBranch top) (hnumber : h.number ≠ 0) :
    (∃ top', ((ofGenesis genesis).extend (before ++ [h])).IsBranch top')
      ↔ ∃ parent, ((ofGenesis genesis).extend before).headerAt? (h.number - 1) = some parent
        ∧ h.IsChildOf parent := by
  have hbefore : ∀ g ∈ genesis :: before, g ∈ genesis :: headers := by
    intro g hg
    rw [hheaders, ← List.cons_append]
    exact List.mem_append_left _ hg
  have hindexed := indexed_extend_ofGenesis (hhash.mono hbefore)
  rw [extend_append_singleton]
  refine hbranch.insert_iff hindexed (fun g hg => ?_) hnumber
  exact hhash g h (hbefore g (mem_cons_of_has_ofGenesis (has_of_extend hg))) (by simp [hheaders])

end

/-- The headers inserted on top of a genesis header are kept as a branch, after every insertion,
    exactly if the parent of each was canonical when it was inserted. That every parent was
    inserted before is not enough. -/
theorem isBranch_extend_iff (hgenesis : genesis.number = 0)
    (hparents : Header.ParentsFirst genesis headers)
    (hhash : HashesIdentify (· ∈ genesis :: headers)) :
    (∀ before after, headers = before ++ after →
      ∃ top, ((ofGenesis genesis).extend before).IsBranch top)
    ↔ ∀ before h after, headers = before ++ h :: after →
      ∃ parent, ((ofGenesis genesis).extend before).headerAt? (h.number - 1) = some parent
        ∧ h.IsChildOf parent := by
  constructor
  · intro hbranches before h after heq
    obtain ⟨top, hbranch⟩ := hbranches before (h :: after) heq
    have hnumber := (hparents before h after heq).1
    exact (isBranch_append_iff hhash heq hbranch hnumber).1
      (hbranches (before ++ [h]) after (by simp [heq]))
  · -- a branch grows from the genesis header, by one insertion after the other
    intro hcanonical before
    induction before using List.reverseRecOn with
    | nil =>
      intro after heq
      exact ⟨0, isBranch_ofGenesis hgenesis⟩
    | append_singleton before h ih =>
      intro after heq
      rw [List.append_assoc, List.singleton_append] at heq
      obtain ⟨top, hbranch⟩ := ih (h :: after) heq
      have hnumber := (hparents before h after heq).1
      exact (isBranch_append_iff hhash heq hbranch hnumber).2 (hcanonical before h after heq)

end Chain

/-! ## A child of a replaced header -/

namespace Rivals

def replaced : Header := { number := 1, parentHash := ({} : Header).hash, time := 1 }

/-- Another child of the same genesis header. -/
def replacing : Header := { replaced with time := 2 }

/-- A child of the header that has lost its place. -/
def stranded : Header := { number := 2, parentHash := replaced.hash, time := 3 }

theorem parentsFirst : Header.ParentsFirst {} [replaced, replacing, stranded] := by
  have hone : Header.ParentsFirst {} [replaced] :=
    Header.parentsFirst_nil.append_singleton (by decide) List.mem_cons_self ⟨rfl, rfl⟩
  have htwo : Header.ParentsFirst {} [replaced, replacing] :=
    hone.append_singleton (by decide) List.mem_cons_self ⟨rfl, rfl⟩
  exact htwo.append_singleton (by decide) (List.mem_cons_of_mem _ List.mem_cons_self) ⟨rfl, rfl⟩

end Rivals

namespace Chain

open Rivals

/-- Every parent comes first, and yet number two is above a header that is not its parent. -/
theorem not_isBranch_rivals :
    Header.ParentsFirst {} [replaced, replacing, stranded]
      ∧ HashesIdentify (· ∈ [{}, replaced, replacing, stranded])
      ∧ ¬ ∀ before after, [replaced, replacing, stranded] = before ++ after →
        ∃ top, ((ofGenesis {}).extend before).IsBranch top := by
  have hhash : HashesIdentify (· ∈ [{}, replaced, replacing, stranded]) :=
    hashesIdentify_of_nodup (by decide +kernel)
  refine ⟨parentsFirst, hhash, ?_⟩
  intro hbranches
  obtain ⟨parent, hparent, hchild⟩ := (isBranch_extend_iff rfl parentsFirst hhash).1
    hbranches [replaced, replacing] stranded [] rfl
  have hat : ((ofGenesis {}).extend [replaced, replacing]).headerAt? 1 = some replacing :=
    headerAt?_insert_self ((ofGenesis {}).insert replaced) replacing
  -- the canonical header below is the one that has won, not the parent
  obtain rfl : parent = replacing := Option.some.inj (hparent.symm.trans hat)
  have hne : replaced.hash ≠ replacing.hash := by decide +kernel
  exact hne hchild.2

end Chain

end CommitteeConsensus
