import CommitteeConsensus.Proofs.Chain.Commitment
import CommitteeConsensus.Proofs.Json.Faithful
import CommitteeConsensus.State.Basic

/-! # What the state root commits to

    The root of a state is the digest of the text of all its tables. Each table is written
    faithfully: words in decimal, amounts in hexadecimal, accounts and hashes byte by byte, tables
    as lists of all their entries. So two states have one text only if they agree in every table
    (`State.written_injective`), and where the hash function has no collision on their texts they
    have one root only then (`State.root_eq_iff`).
-/

namespace CommitteeConsensus

open Json

/-! ## Amounts -/

/-- The number that hexadecimal digits stand for. -/
def natOfHex (digits : List UInt8) : Nat :=
  digits.foldl (fun n d => 16 * n + (hexNibble? d).getD 0) 0

theorem natOfHex_append (digits : List UInt8) (d : UInt8) :
    natOfHex (digits ++ [d]) = 16 * natOfHex digits + (hexNibble? d).getD 0 := by
  rw [natOfHex, List.foldl_append]
  rfl

/-- A hexadecimal digit is read as what it was written for, and may stand in a string. -/
theorem hexDigit_spec {d : Nat} (h : d < 16) :
    hexNibble? (UInt8.ofNat (hexDigit (UInt8.ofNat d)).toNat) = some d
      ∧ isPlain (UInt8.ofNat (hexDigit (UInt8.ofNat d)).toNat) = true := by
  decide +revert +kernel

theorem natOfHex_hexDigits (n : Nat) : natOfHex (hexDigits n) = n := by
  fun_induction hexDigits n with
  | case1 n h =>
    obtain ⟨hvalue, -⟩ := hexDigit_spec h
    rw [natOfHex, List.foldl_cons, List.foldl_nil, hvalue, Option.getD_some]
    omega
  | case2 n h ih =>
    obtain ⟨hvalue, -⟩ := hexDigit_spec (Nat.mod_lt n (by decide : 0 < 16))
    rw [natOfHex_append, ih, hvalue, Option.getD_some]
    omega

theorem all_isPlain_hexDigits (n : Nat) : (hexDigits n).all isPlain = true := by
  fun_induction hexDigits n with
  | case1 n h =>
    obtain ⟨-, hplain⟩ := hexDigit_spec h
    rw [List.all_cons, hplain, List.all_nil, Bool.and_self]
  | case2 n h ih =>
    obtain ⟨-, hplain⟩ := hexDigit_spec (Nat.mod_lt n (by decide : 0 < 16))
    rw [List.all_append, ih, List.all_cons, hplain, List.all_nil, Bool.and_self, Bool.and_self]

theorem Amount.faithful_toJson : Faithful Amount.toJson where
  sound a := by
    apply sound_text
    rw [List.all_append, all_isPlain_hexDigits, Bool.and_true]
    decide
  injective := by
    intro a b heq
    -- what stands before the digits is the same for all amounts
    have hdigits := List.append_cancel_left (Json.text.inj heq)
    have hread := congrArg natOfHex hdigits
    rw [natOfHex_hexDigits, natOfHex_hexDigits] at hread
    exact Amount.ext hread

/-! ## Records -/

theorem Sample.faithful_toJson : Faithful Sample.toJson where
  sound s := by
    apply sound_record
    · simp only [List.forall_mem_cons]
      decide
    · simp [sound_ofWord]
  injective := by
    intro s t heq
    have hvalues := ofFields_inj heq
    simp only [List.map_cons, List.map_nil, List.cons.injEq, and_true] at hvalues
    obtain ⟨hblock, hvalue⟩ := hvalues
    rw [Sample.mk.injEq]
    exact ⟨faithful_ofWord.injective hblock, faithful_ofWord.injective hvalue⟩

theorem SampleLog.faithful_toJson : Faithful SampleLog.toJson where
  sound log := Sample.faithful_toJson.ofList.sound log.toList
  injective := by
    intro log other heq
    have hsamples := Sample.faithful_toJson.ofList.injective heq
    rw [SampleLog.mk.injEq]
    exact Array.toList_inj.1 hsamples

theorem RefundRequest.faithful_toJson : Faithful RefundRequest.toJson where
  sound r := by
    apply sound_record
    · simp only [List.forall_mem_cons]
      decide
    · simp [sound_ofWord, sound_ofBytes]
  injective := by
    intro r q heq
    have hvalues := ofFields_inj heq
    simp only [List.map_cons, List.map_nil, List.cons.injEq, and_true] at hvalues
    obtain ⟨haddress, hblock⟩ := hvalues
    rw [RefundRequest.mk.injEq]
    exact ⟨faithful_ofBytes.injective haddress, faithful_ofWord.injective hblock⟩

theorem RewardLedger.faithful_toJson : Faithful RewardLedger.toJson where
  sound l := by
    apply sound_record
    · simp only [List.forall_mem_cons]
      decide
    · simp [Amount.faithful_toJson.sound]
  injective := by
    intro l k heq
    have hvalues := ofFields_inj heq
    simp only [List.map_cons, List.map_nil, List.cons.injEq, and_true,
      Amount.faithful_toJson.injective.eq_iff] at hvalues
    rw [RewardLedger.mk.injEq]
    exact hvalues

/-! ## States -/

theorem State.faithful_toJson : Faithful State.toJson where
  sound s := by
    apply sound_record
    · simp only [List.forall_mem_cons]
      decide
    · simp only [List.forall_mem_cons, List.not_mem_nil, false_implies, implies_true, and_true]
      exact ⟨(faithful_ofBytes.ofTable Amount.faithful_toJson).sound _,
        (faithful_ofBytes.ofTable SampleLog.faithful_toJson).sound _,
        (faithful_ofBytes.ofTable SampleLog.faithful_toJson).sound _,
        faithful_ofBytes.ofList.sound _,
        (faithful_ofBytes.ofTable faithful_ofBytes.ofList).sound _,
        RewardLedger.faithful_toJson.sound _, RefundRequest.faithful_toJson.ofList.sound _,
        (faithful_ofWord.ofPair faithful_ofBytes).sound _⟩
  injective := by
    intro s t heq
    have hvalues := ofFields_inj heq
    simp only [List.map_cons, List.map_nil, List.cons.injEq, and_true] at hvalues
    obtain ⟨hbalances, hstake, hheft, hcandidates, hbinding, hledger, hrefunds, hsync⟩ := hvalues
    rw [State.mk.injEq]
    exact ⟨(faithful_ofBytes.ofTable Amount.faithful_toJson).injective hbalances,
      (faithful_ofBytes.ofTable SampleLog.faithful_toJson).injective hstake,
      (faithful_ofBytes.ofTable SampleLog.faithful_toJson).injective hheft,
      faithful_ofBytes.ofList.injective hcandidates,
      (faithful_ofBytes.ofTable faithful_ofBytes.ofList).injective hbinding,
      RewardLedger.faithful_toJson.injective hledger,
      RefundRequest.faithful_toJson.ofList.injective hrefunds,
      (faithful_ofWord.ofPair faithful_ofBytes).injective hsync⟩

namespace State

variable {s t : State}

/-- The text of a state is that of no other. -/
theorem written_injective : Function.Injective written := faithful_toJson.render_injective

/-- Where the hash function has no collision, states with one root agree in every table. -/
theorem root_eq_iff (hdigest : DigestsIdentify (· ∈ [s.written, t.written])) :
    s.root = t.root ↔ s = t := by
  constructor
  · intro hroot
    apply written_injective
    exact hdigest _ _ (by simp) (by simp) hroot
  · rintro rfl
    rfl

end State

end CommitteeConsensus
