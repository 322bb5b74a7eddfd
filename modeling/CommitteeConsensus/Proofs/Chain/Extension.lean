import CommitteeConsensus.Proofs.Chain.Index

/-! # Chains that grow

    A chain that headers were added to at the head, one after the other, answers a number with
    the added header of that number and else as before (`Grown.headerAt?`). The canonical headers
    that it had stay where they were (`Grown.keeps`).
-/

namespace CommitteeConsensus

namespace Header

/-- `h` names `parent` as its parent and has the next number. -/
def IsChildOf (h parent : Header) : Prop :=
  h.number = parent.number + 1 ∧ h.parentHash = parent.hash

/-- Each header is a child of the one before, and the first one of `parent`. -/
def Linked : Header → List Header → Prop
  | _, [] => True
  | parent, h :: rest => h.IsChildOf parent ∧ Linked h rest

/-- A child is numbered next to its parent, unless numbers have run out. -/
theorem IsChildOf.toNat_number {h parent : Header} (hchild : h.IsChildOf parent)
    (hnumber : h.number ≠ 0) : h.number.toNat = parent.number.toNat + 1 := by
  have hsucc : h.number.toNat = (parent.number.toNat + 1) % 2 ^ 64 := by
    rw [hchild.1, UInt64.toNat_add]
    rfl
  have hpositive : h.number.toNat ≠ 0 := fun h0 => hnumber (UInt64.toNat_inj.1 h0)
  have hword := parent.number.toNat_lt
  omega

theorem IsChildOf.lt {h parent : Header} (hchild : h.IsChildOf parent) (hnumber : h.number ≠ 0) :
    parent.number < h.number := by
  rw [UInt64.lt_iff_toNat_lt, hchild.toNat_number hnumber]
  exact Nat.lt_succ_self _

end Header

namespace Chain

variable {c : Chain} {head h : Header} {headers : List Header}

/-- The chain after headers were inserted one after the other. -/
def extend (c : Chain) (headers : List Header) : Chain := headers.foldl insert c

@[simp] theorem extend_nil (c : Chain) : c.extend [] = c := rfl

@[simp] theorem extend_append_singleton (c : Chain) (headers : List Header) (h : Header) :
    c.extend (headers ++ [h]) = (c.extend headers).insert h := by
  simp [extend]

theorem has_of_extend {g : Header} (hg : (c.extend headers).Has g) : g ∈ headers ∨ c.Has g := by
  induction headers generalizing c with
  | nil => exact .inr hg
  | cons first rest ih =>
    have hrest : (extend (c.insert first) rest).Has g := hg
    rcases ih hrest with hmem | hhas
    · exact .inl (List.mem_cons_of_mem first hmem)
    · rcases has_of_insert hhas with rfl | hhas
      · exact .inl List.mem_cons_self
      · exact .inr hhas

/-- The chain has grown by `headers` at its head, which was `head`. -/
structure Grown (c : Chain) (head : Header) (headers : List Header) : Prop where
  indexed : (c.extend headers).Indexed
  /-- The last header is the head now. -/
  below : ∀ number, (headers.getLastD head).number < number → (c.extend headers).Below number
  /-- The added headers come before those that the chain had. -/
  headerAt? : ∀ number, (c.extend headers).headerAt? number
    = (headers.reverse.find? (·.number = number)).or (c.headerAt? number)
  keeps : ∀ number g, c.headerAt? number = some g → (c.extend headers).headerAt? number = some g
  positive : ∀ g ∈ headers, g.number ≠ 0

theorem grown_nil (hc : c.Indexed) (hhead : c.head? = some head) : Grown c head [] where
  indexed := hc
  below := (hc.head? hhead).2
  headerAt? number := by simp
  keeps number g hg := hg
  positive g hg := by simp at hg

section

variable (hgrown : Grown c head headers) (hchild : h.IsChildOf (headers.getLastD head))
  (hnumber : h.number ≠ 0) (hhash : HashesIdentify fun g => g ∈ headers ++ [h] ∨ c.Has g)

include hgrown hchild hnumber hhash

/-- A child of the head is added above all that is canonical. -/
theorem Grown.headerAt?_insert (number : UInt64) : ((c.extend headers).insert h).headerAt? number
    = if number = h.number then some h else (c.extend headers).headerAt? number := by
  apply headerAt?_insert_of_below hgrown.indexed
  · intro g hg heq
    exact hhash g h ((has_of_extend hg).imp_left (List.mem_append_left _)) (.inl (by simp)) heq
  · exact hgrown.below h.number (hchild.lt hnumber)

theorem Grown.keeps_insert {number : UInt64} {g : Header}
    (hg : (c.extend headers).headerAt? number = some g) :
    ((c.extend headers).insert h).headerAt? number = some g := by
  have hbelow : (c.extend headers).Below h.number := hgrown.below h.number (hchild.lt hnumber)
  obtain ⟨k, hk, -⟩ := headerAt?_eq_some_iff.1 hg
  have hlt : number < h.number := hbelow number (by simp [hk])
  have hne : number ≠ h.number := by
    intro heq
    rw [heq] at hlt
    exact UInt64.lt_irrefl _ hlt
  rw [hgrown.headerAt?_insert hchild hnumber hhash, if_neg hne, hg]

/-- A chain that has grown grows further by a child of its head. -/
theorem Grown.append : Grown c head (headers ++ [h]) := by
  have hbelow : (c.extend headers).Below h.number := hgrown.below h.number (hchild.lt hnumber)
  constructor
  · rw [extend_append_singleton]
    apply hgrown.indexed.insert
    intro g hg heq
    exact hhash g h ((has_of_extend hg).imp_left (List.mem_append_left _)) (.inl (by simp)) heq
  · intro number hlt
    rw [List.getLastD_concat] at hlt
    rw [extend_append_singleton]
    exact hbelow.insert hlt
  · intro number
    rw [extend_append_singleton, hgrown.headerAt?_insert hchild hnumber hhash,
      List.reverse_append, List.reverse_singleton, List.singleton_append]
    by_cases heq : number = h.number
    · simp [heq]
    · have hne : ¬ h.number = number := fun h' => heq h'.symm
      rw [if_neg heq, List.find?_cons_of_neg (by simpa using hne), hgrown.headerAt?]
  · intro number g hg
    rw [extend_append_singleton]
    exact hgrown.keeps_insert hchild hnumber hhash (hgrown.keeps number g hg)
  · intro g hg
    rcases List.mem_append.1 hg with hg | hg
    · exact hgrown.positive g hg
    · rw [List.mem_singleton.1 hg]
      exact hnumber

end

theorem Grown.genesis? (hgrown : Grown c head headers) :
    (c.extend headers).genesis? = c.genesis? := by
  have hnone : headers.reverse.find? (fun g => g.number = 0) = none := by
    rw [List.find?_eq_none]
    intro g hg
    simpa using hgrown.positive g (List.mem_reverse.1 hg)
  rw [Chain.genesis?, hgrown.headerAt?, hnone, Option.none_or]
  rfl

end Chain

end CommitteeConsensus
