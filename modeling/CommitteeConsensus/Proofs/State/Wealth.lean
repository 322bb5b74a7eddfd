import CommitteeConsensus.State.Basic
import Mathlib.Algebra.Ring.Nat

/-! # Wealth

    The exact sum of all balances, and what payments do to it. An account ends with what it had
    and what it received, or at the top of the range (`balance_creditAll`). As long as no account
    gets there, wealth grows by exactly what was paid (`wealth_creditAll`).
-/

namespace CommitteeConsensus

/-! ## Sums over a table -/

namespace Table

variable {κ α : Type} [LT κ] [DecidableLT κ] [KeyOrder κ]

theorem sum_place [DecidableEq κ] (f : α → Nat) (k : κ) (v : α) {es : List (κ × α)}
    (h : (es.map Prod.fst).Pairwise (· < ·)) :
    ((place k v es).map fun e => f e.2).sum + ((seek k es).map f).getD 0
      = (es.map fun e => f e.2).sum + f v := by
  induction es with
  | nil => simp [place]
  | cons e rest ih =>
    have hrest := h
    rw [List.map_cons, List.pairwise_cons] at hrest
    rw [place]
    split
    · next hk =>
      -- the key is new, below all others
      have hnone : seek k (e :: rest) = none := by
        apply seek_eq_none
        intro x hx
        rcases List.mem_cons.1 hx with rfl | hx
        · exact hk
        · exact KeyOrder.trans hk (hrest.1 x hx)
      simp only [hnone, List.map_cons, List.sum_cons, Option.map_none, Option.getD_none]
      omega
    · next hk =>
      split
      · next hk' =>
        have hne : e.1 ≠ k := fun he => KeyOrder.irrefl k (he ▸ hk')
        have hsum := ih hrest.2
        rw [seek_cons, if_neg hne]
        simp only [List.map_cons, List.sum_cons]
        omega
      · next hk' =>
        have he : e.1 = k := (KeyOrder.connected hk hk').symm
        rw [seek_cons, if_pos he]
        simp only [List.map_cons, List.sum_cons, Option.map_some, Option.getD_some]
        omega

/-- The sum after an insertion, with the value that was replaced, is the one before with the value
    that was inserted. -/
theorem sum_values_insert [DecidableEq κ] (f : α → Nat) (t : Table κ α) (k : κ) (v : α) :
    ((t.insert k v).values.map f).sum + ((t.get? k).map f).getD 0
      = (t.values.map f).sum + f v := by
  have hsum := sum_place f k v t.ascending
  simpa [values, insert, get?, Function.comp_def] using hsum

end Table

/-! ## Sums of amounts -/

namespace Amount

theorem clamp_toNat (a : Amount) : clamp a.toNat = a := by
  apply ext
  have hle := a.toNat_le_max
  simp only [toNat_clamp]
  omega

theorem satAdd_clamp (n : Nat) (a : Amount) : (clamp n).satAdd a = clamp (n + a.toNat) := by
  apply ext
  simp only [toNat_satAdd, toNat_clamp]
  omega

theorem clamp_satAdd_clamp (n k : Nat) : (clamp n).satAdd (clamp k) = clamp (n + k) := by
  apply ext
  simp only [toNat_satAdd, toNat_clamp]
  omega

theorem zero_satAdd_clamp (n : Nat) : (0 : Amount).satAdd (clamp n) = clamp n := by
  have hadd := clamp_satAdd_clamp 0 n
  rwa [Nat.zero_add] at hadd

@[simp] theorem satAdd_zero (a : Amount) : a.satAdd 0 = a := by
  rw [satAdd, toNat_zero, Nat.add_zero, clamp_toNat]

theorem foldl_satAdd (amounts : List Amount) (n : Nat) :
    amounts.foldl satAdd (clamp n) = clamp (n + (amounts.map toNat).sum) := by
  induction amounts generalizing n with
  | nil => rfl
  | cons a rest ih => rw [List.foldl_cons, satAdd_clamp, ih, List.map_cons, List.sum_cons,
      Nat.add_assoc]

theorem satSum_eq_clamp (amounts : List Amount) :
    satSum amounts = clamp (amounts.map toNat).sum := by
  have hsum := foldl_satAdd amounts 0
  rw [Nat.zero_add] at hsum
  exact hsum

end Amount

/-! ## Shares -/

namespace Shares

/-- All that is paid. -/
def total (shares : Shares) : Nat := (shares.map fun share => share.2.toNat).sum

/-- What one account is paid. -/
def received (shares : Shares) (a : Address) : Nat :=
  (shares.map fun share => if share.1 = a then share.2.toNat else 0).sum

@[simp] theorem total_cons (share : Address × Amount) (shares : Shares) :
    total (share :: shares) = share.2.toNat + total shares := rfl

@[simp] theorem received_cons (share : Address × Amount) (shares : Shares) (a : Address) :
    received (share :: shares) a
      = (if share.1 = a then share.2.toNat else 0) + received shares a := rfl

theorem received_le_total (shares : Shares) (a : Address) : received shares a ≤ total shares := by
  induction shares with
  | nil => exact Nat.le_refl 0
  | cons share rest ih =>
    rw [received_cons, total_cons]
    split <;> omega

/-- Who is not named is paid nothing. -/
theorem received_of_notMem {shares : Shares} {a : Address} (h : a ∉ shares.map Prod.fst) :
    received shares a = 0 := by
  induction shares with
  | nil => rfl
  | cons share rest ih =>
    rw [List.map_cons, List.mem_cons, not_or] at h
    rw [received_cons, if_neg (Ne.symm h.1), ih h.2]

theorem total_append (shares more : Shares) :
    total (shares ++ more) = total shares + total more := by
  simp [total]

theorem total_perm {shares shares' : Shares} (h : shares.Perm shares') :
    total shares = total shares' :=
  (h.map _).sum_nat

theorem received_perm {shares shares' : Shares} (h : shares.Perm shares') (a : Address) :
    received shares a = received shares' a :=
  (h.map _).sum_nat

theorem satSum_eq_clamp_total (shares : Shares) :
    Amount.satSum (shares.map Prod.snd) = .clamp (total shares) := by
  rw [Amount.satSum_eq_clamp, List.map_map]
  rfl

end Shares

/-! ## Balances -/

namespace State

/-- The exact sum of all balances. -/
def wealth (s : State) : Nat := (s.balances.values.map Amount.toNat).sum

theorem totalBalance_eq_clamp (s : State) : s.totalBalance = .clamp s.wealth :=
  Amount.satSum_eq_clamp s.balances.values

theorem wealth_setBalance (s : State) (a : Address) (amount : Amount) :
    (s.setBalance a amount).wealth + (s.balance a).toNat = s.wealth + amount.toNat := by
  have hsum := Table.sum_values_insert Amount.toNat s.balances a amount
  have hold : ((s.balances.get? a).map Amount.toNat).getD 0 = (s.balance a).toNat := by
    rw [balance]
    cases s.balances.get? a <;> rfl
  rw [hold] at hsum
  exact hsum

theorem balance_le_wealth (s : State) (a : Address) : (s.balance a).toNat ≤ s.wealth := by
  have hset := s.wealth_setBalance a 0
  rw [Amount.toNat_zero] at hset
  omega

/-- A payment that leaves the balance in range adds to wealth what is paid. -/
theorem wealth_credit {s : State} {a : Address} {amount : Amount}
    (hfits : (s.balance a).toNat + amount.toNat ≤ Amount.max) :
    (s.credit a amount).wealth = s.wealth + amount.toNat := by
  have hset := s.wealth_setBalance a ((s.balance a).satAdd amount)
  rw [Amount.toNat_satAdd, Nat.min_eq_left hfits] at hset
  have hcredit : (s.credit a amount).wealth
      = (s.setBalance a ((s.balance a).satAdd amount)).wealth := rfl
  omega

theorem toNat_balance_credit (s : State) (a b : Address) (amount : Amount) :
    ((s.credit a amount).balance b).toNat
      = min ((s.balance b).toNat + if a = b then amount.toNat else 0) Amount.max := by
  rw [balance_credit]
  split
  · rw [Amount.toNat_satAdd]
  · have hle := (s.balance b).toNat_le_max
    omega

theorem creditAll_cons (s : State) (share : Address × Amount) (shares : Shares) :
    s.creditAll (share :: shares) = (s.credit share.1 share.2).creditAll shares := rfl

theorem creditAll_append (s : State) (shares more : Shares) :
    s.creditAll (shares ++ more) = (s.creditAll shares).creditAll more := by
  simp [creditAll]

/-- An account has what it had and what it received, or as much as it can have. -/
theorem balance_creditAll (s : State) (shares : Shares) (a : Address) :
    (s.creditAll shares).balance a = .clamp ((s.balance a).toNat + shares.received a) := by
  induction shares generalizing s with
  | nil => exact (Amount.clamp_toNat (s.balance a)).symm
  | cons share rest ih =>
    rw [creditAll_cons, ih]
    apply Amount.ext
    simp only [Amount.toNat_clamp, toNat_balance_credit, Shares.received_cons]
    omega

theorem get?_credit (s : State) (a b : Address) (amount : Amount) :
    (s.credit a amount).balances.get? b
      = if a = b then some ((s.balance a).satAdd amount) else s.balances.get? b :=
  Table.get?_insert _ _ _ _

/-- The accounts that are named have an entry afterwards, even for a payment of zero, and no other
    entry changes. -/
theorem get?_creditAll (s : State) (shares : Shares) (a : Address) :
    (s.creditAll shares).balances.get? a
      = if a ∈ shares.map Prod.fst then
          some (.clamp ((s.balance a).toNat + shares.received a))
        else s.balances.get? a := by
  induction shares generalizing s with
  | nil => rfl
  | cons share rest ih =>
    rw [creditAll_cons, ih]
    simp only [List.map_cons, List.mem_cons]
    by_cases hlater : a ∈ rest.map Prod.fst
    · rw [if_pos hlater, if_pos (.inr hlater)]
      congr 1
      apply Amount.ext
      simp only [Amount.toNat_clamp, toNat_balance_credit, Shares.received_cons]
      omega
    · rw [if_neg hlater, get?_credit, Shares.received_cons, Shares.received_of_notMem hlater,
        Nat.add_zero]
      by_cases hnow : share.1 = a
      · rw [if_pos hnow, if_pos (.inl hnow.symm), if_pos hnow, hnow]
        rfl
      · rw [if_neg hnow, if_neg]
        rintro (heq | hmem)
        · exact hnow heq.symm
        · exact hlater hmem

/-- Payments that leave all balances in range add to wealth what is paid. -/
theorem wealth_creditAll {s : State} {shares : Shares}
    (hfits : ∀ a, (s.balance a).toNat + shares.received a ≤ Amount.max) :
    (s.creditAll shares).wealth = s.wealth + shares.total := by
  induction shares generalizing s with
  | nil => rfl
  | cons share rest ih =>
    have hfirst := hfits share.1
    rw [Shares.received_cons, if_pos rfl] at hfirst
    have hcredit : (s.credit share.1 share.2).wealth = s.wealth + share.2.toNat :=
      wealth_credit (by omega)
    have hrest : ∀ a, ((s.credit share.1 share.2).balance a).toNat + Shares.received rest a
        ≤ Amount.max := by
      intro a
      have ha := hfits a
      rw [Shares.received_cons] at ha
      rw [toNat_balance_credit]
      omega
    rw [creditAll_cons, ih hrest, hcredit, Shares.total_cons, Nat.add_assoc]

/-! ## What payments leave alone -/

/-- Nothing but balances has changed. -/
theorem creditAll_eq (s : State) (shares : Shares) :
    s.creditAll shares = { s with balances := (s.creditAll shares).balances } := by
  induction shares generalizing s with
  | nil => rfl
  | cons share rest ih =>
    rw [creditAll_cons, ih]
    rfl

/-- It does not matter in which order payments are made. -/
theorem creditAll_perm (s : State) {shares shares' : Shares} (h : shares.Perm shares') :
    s.creditAll shares = s.creditAll shares' := by
  have hbalances : (s.creditAll shares).balances = (s.creditAll shares').balances := by
    apply Table.ext_get?
    intro a
    rw [get?_creditAll, get?_creditAll, Shares.received_perm h a]
    simp only [(h.map Prod.fst).mem_iff]
  rw [creditAll_eq, hbalances, ← creditAll_eq]

@[simp] theorem latestStake_creditAll (s : State) (shares : Shares) (a : Address) :
    (s.creditAll shares).latestStake a = s.latestStake a := by
  rw [creditAll_eq]
  rfl

@[simp] theorem refunds_creditAll (s : State) (shares : Shares) :
    (s.creditAll shares).refunds = s.refunds := by
  rw [creditAll_eq]

end State

end CommitteeConsensus
