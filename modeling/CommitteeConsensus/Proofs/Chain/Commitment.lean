import CommitteeConsensus.Proofs.Chain.ExtraData
import CommitteeConsensus.Proofs.Chain.Index
import Mathlib.Data.List.Nodup

/-! # What hashes commit to

    The fields of a header follow each other without separators. Only one of them varies in length,
    and it is as long as the rest of the message leaves it, so the bytes that a hash is made from
    are those of one header (`Header.preimage_injective`). Where the hash function has no collision
    on such bytes, headers with one hash are equal.

    A seal signs the hash of the header with its signature cleared. That hash commits to all other
    fields and to everything else that the extra-data says, and the signature plays no part in it
    (`Header.sealHash_eq_iff`).
-/

namespace CommitteeConsensus

/-- Of the messages that satisfy `S` no two have one digest. -/
def DigestsIdentify (S : List UInt8 → Prop) : Prop :=
  ∀ a b, S a → S b → keccak256 a = keccak256 b → a = b

theorem digestsIdentify_of_nodup {messages : List (List UInt8)}
    (h : (messages.map keccak256).Nodup) : DigestsIdentify (· ∈ messages) :=
  fun _ _ ha hb => List.inj_on_of_nodup_map h ha hb

theorem DigestsIdentify.mono {S T : List UInt8 → Prop} (h : DigestsIdentify T)
    (hST : ∀ a, S a → T a) : DigestsIdentify S :=
  fun a b ha hb => h a b (hST a ha) (hST b hb)

/-! ## Fields of a message -/

/-- A byte string that knows its length can be told from what follows it. -/
theorem Bytes.append_inj {n : Nat} {a b : Bytes n} {s t : List UInt8} :
    a.toList ++ s = b.toList ++ t ↔ a = b ∧ s = t := by
  constructor
  · intro h
    obtain ⟨hfirst, hrest⟩ := List.append_inj h (by simp)
    exact ⟨Bytes.ext hfirst, hrest⟩
  · rintro ⟨rfl, rfl⟩
    rfl

theorem bigEndian_inj {width m n : Nat} (hm : m < Nat.pow 256 width) (hn : n < Nat.pow 256 width)
    (h : bigEndian width m = bigEndian width n) : m = n := by
  have hread := congrArg ofBigEndian h
  rwa [ofBigEndian_bigEndian hm, ofBigEndian_bigEndian hn] at hread

theorem bigEndian_append_inj {width m n : Nat} (hm : m < Nat.pow 256 width)
    (hn : n < Nat.pow 256 width) {s t : List UInt8} :
    bigEndian width m ++ s = bigEndian width n ++ t ↔ m = n ∧ s = t := by
  constructor
  · intro h
    obtain ⟨hfirst, hrest⟩ := List.append_inj h (by simp)
    exact ⟨bigEndian_inj hm hn hfirst, hrest⟩
  · rintro ⟨rfl, rfl⟩
    rfl

theorem word_append_inj {a b : UInt64} {s t : List UInt8} :
    bigEndian 8 a.toNat ++ s = bigEndian 8 b.toNat ++ t ↔ a = b ∧ s = t := by
  rw [bigEndian_append_inj a.toNat_lt b.toNat_lt, UInt64.toNat_inj]

theorem Amount.append_inj {a b : Amount} {s t : List UInt8} :
    bigEndian 32 a.toNat ++ s = bigEndian 32 b.toNat ++ t ↔ a = b ∧ s = t := by
  have hbound : Amount.bound = Nat.pow 256 32 := rfl
  rw [bigEndian_append_inj (hbound ▸ a.toNat_lt) (hbound ▸ b.toNat_lt)]
  constructor
  · rintro ⟨hsame, rfl⟩
    exact ⟨Amount.ext hsame, rfl⟩
  · rintro ⟨rfl, rfl⟩
    exact ⟨rfl, rfl⟩

namespace Header

variable {h g : Header} {x y : ExtraData}

/-! ## The hash of a header -/

/-- The bytes that a hash commits to are those of one header only. -/
theorem preimage_injective : Function.Injective preimage := by
  intro h g heq
  have hlength : h.extra.length = g.extra.length := by
    have hwhole := congrArg List.length heq
    simp only [preimage, List.length_append, Bytes.length_toList, length_bigEndian] at hwhole
    omega
  have hextra : ∀ s t, h.extra ++ s = g.extra ++ t ↔ h.extra = g.extra ∧ s = t := by
    intro s t
    constructor
    · intro happend
      exact List.append_inj happend hlength
    · rintro ⟨hsame, rfl⟩
      rw [hsame]
  have hfields : h.preimage ++ [] = g.preimage ++ [] := by rw [heq]
  simp only [preimage, List.append_assoc, Bytes.append_inj, word_append_inj, hlength,
    List.append_cancel_left_eq, hextra, and_true] at hfields
  rw [Header.mk.injEq]
  exact hfields

/-- Where the hash function has no collision, headers with one hash are equal. -/
theorem hashesIdentify_of_digests {S : Header → Prop}
    (hdigest : DigestsIdentify fun m => ∃ f, S f ∧ f.preimage = m) : HashesIdentify S := by
  intro f f' hf hf' heq
  apply preimage_injective
  exact hdigest _ _ ⟨f, hf, rfl⟩ ⟨f', hf', rfl⟩ heq

/-! ## The hash that a seal signs -/

/-- Headers with one seal hash differ in their extra-data, and there in the signature only. -/
theorem eq_of_sealHash {digest : Hash} (hx : ExtraData.decode h.extra = .ok x)
    (hy : ExtraData.decode g.extra = .ok y) (hh : h.sealHash = .ok digest)
    (hg : g.sealHash = .ok digest)
    (hhash : HashesIdentify fun f => h.unsealed = .ok f ∨ g.unsealed = .ok f) :
    g = { h with extra := g.extra } ∧ y = { x with signature := y.signature } := by
  obtain ⟨f, hf, hdigest⟩ := sealHash_eq_ok_iff.1 hh
  obtain ⟨f', hf', hdigest'⟩ := sealHash_eq_ok_iff.1 hg
  obtain rfl : f = f' := hhash f f' (.inl hf) (.inr hf') (hdigest.trans hdigest'.symm)
  obtain ⟨bytes, hbytes, rfl⟩ := (unsealed_eq_ok_iff hx).1 hf
  obtain ⟨bytes', hbytes', hsame⟩ := (unsealed_eq_ok_iff hy).1 hf'
  rw [Header.mk.injEq] at hsame
  obtain ⟨h1, h2, h3, h4, h5, h6, h7, h8, h9, h10, h11, rfl, h13, h14⟩ := hsame
  constructor
  · rw [h1, h2, h3, h4, h5, h6, h7, h8, h9, h10, h11, h13, h14]
  · -- what was signed can be read back
    have hunsigned : x.unsigned = y.unsigned := by
      have hread := ExtraData.decode_encode hbytes
      rw [ExtraData.decode_encode hbytes'] at hread
      exact (Except.ok.inj hread).symm
    obtain ⟨committee, signature, number, hash⟩ := x
    obtain ⟨committee', signature', number', hash'⟩ := y
    simp only [ExtraData.unsigned, ExtraData.mk.injEq, true_and] at hunsigned ⊢
    exact ⟨hunsigned.1.symm, hunsigned.2.1.symm, hunsigned.2.2.symm⟩

/-- A header that differs in its signature only is signed as the same header. -/
theorem sealHash_congr (hx : ExtraData.decode h.extra = .ok x)
    (hy : ExtraData.decode g.extra = .ok y) (hfields : g = { h with extra := g.extra })
    (hsigned : y.unsigned = x.unsigned) : g.sealHash = h.sealHash := by
  have hwritten : g.withExtra x.unsigned = h.withExtra x.unsigned := by
    rw [hfields]
    rfl
  rw [sealHash, sealHash, hx, hy, ok_bind, ok_bind, hsigned, hwritten]

/-- The bytes that go into the seal hashes of two headers. -/
def SealPreimage (h g : Header) (message : List UInt8) : Prop :=
  ∃ f, (h.unsealed = .ok f ∨ g.unsealed = .ok f) ∧ f.preimage = message

/-- Two headers have one seal hash exactly if they agree in all fields but the extra-data, and in
    all that this says but the signature. So a header may be signed again, or its signature be
    cleared, and has the seal hash that it had. -/
theorem sealHash_eq_iff {d e : Hash} (hh : h.sealHash = .ok d) (hg : g.sealHash = .ok e)
    (hdigest : DigestsIdentify (SealPreimage h g)) :
    ∃ x y, ExtraData.decode h.extra = .ok x ∧ ExtraData.decode g.extra = .ok y
      ∧ (d = e ↔ g = { h with extra := g.extra } ∧ y.unsigned = x.unsigned)
      ∧ ∀ signature h', h.withExtra { x with signature } = .ok h' → h'.sealHash = .ok d := by
  obtain ⟨x, hx, -⟩ := bind_eq_ok_iff.1 hh
  obtain ⟨y, hy, -⟩ := bind_eq_ok_iff.1 hg
  refine ⟨x, y, hx, hy, ⟨?_, ?_⟩, ?_⟩
  · rintro rfl
    have hhash : HashesIdentify fun f => h.unsealed = .ok f ∨ g.unsealed = .ok f :=
      hashesIdentify_of_digests hdigest
    obtain ⟨hfields, hread⟩ := eq_of_sealHash hx hy hh hg hhash
    refine ⟨hfields, ?_⟩
    rw [hread]
    rfl
  · rintro ⟨hfields, hsigned⟩
    have hsame := sealHash_congr hx hy hfields hsigned
    rw [hh, hg] at hsame
    exact (Except.ok.inj hsame).symm
  · intro signature h' hwrite
    obtain ⟨bytes, -, rfl⟩ := withExtra_eq_ok_iff.1 hwrite
    rw [← hh]
    exact sealHash_congr hx (decode_withExtra hwrite) rfl rfl

/-! ## Two checkpoints -/

/-- A header that carries this and says nothing else. -/
def carrying (x : ExtraData) : Header := { extra := ExtraData.frame x.payload }

theorem decode_carrying (hlength : x.payload.length < 0x100000000) :
    ExtraData.decode (carrying x).extra = .ok x :=
  ExtraData.decode_frame hlength x.parse?_payload

theorem unsealed_carrying (hlength : x.payload.length < 0x100000000)
    (hunsigned : x.unsigned.payload.length < 0x100000000) :
    (carrying x).unsealed = .ok (carrying x.unsigned) :=
  (unsealed_eq_ok_iff (decode_carrying hlength)).2
    ⟨_, ExtraData.encode_eq_ok_iff.2 ⟨hunsigned, rfl⟩, rfl⟩

/-- A signed committee with a checkpoint. -/
def checkpointed (lastSyncNumber : UInt64) : ExtraData where
  committee := { rank := [.zero 20], proportion := [10000] }
  signature := [9]
  lastSyncNumber := lastSyncNumber

/-- Another checkpoint is signed as another header. -/
theorem sealHash_eq_iff_checkpointed :
    DigestsIdentify (SealPreimage (carrying (checkpointed 12)) (carrying (checkpointed 13)))
      ∧ ∃ d e, (carrying (checkpointed 12)).sealHash = .ok d
        ∧ (carrying (checkpointed 13)).sealHash = .ok e ∧ d ≠ e := by
  have hx := decode_carrying (x := checkpointed 12) (by decide +kernel)
  have hy := decode_carrying (x := checkpointed 13) (by decide +kernel)
  have hf := unsealed_carrying (x := checkpointed 12) (by decide +kernel) (by decide +kernel)
  have hg := unsealed_carrying (x := checkpointed 13) (by decide +kernel) (by decide +kernel)
  have hdigest : DigestsIdentify
      (SealPreimage (carrying (checkpointed 12)) (carrying (checkpointed 13))) := by
    have hlisted : DigestsIdentify (· ∈ [(carrying (checkpointed 12).unsigned).preimage,
        (carrying (checkpointed 13).unsigned).preimage]) :=
      digestsIdentify_of_nodup (by decide +kernel)
    apply hlisted.mono
    rintro message ⟨f, hf' | hg', rfl⟩
    · rw [← Except.ok.inj (hf.symm.trans hf')]
      simp
    · rw [← Except.ok.inj (hg.symm.trans hg')]
      simp
  have hd := sealHash_eq_ok_iff.2 ⟨_, hf, rfl⟩
  have he := sealHash_eq_ok_iff.2 ⟨_, hg, rfl⟩
  refine ⟨hdigest, _, _, hd, he, ?_⟩
  obtain ⟨x, y, hx', hy', hiff, -⟩ := sealHash_eq_iff hd he hdigest
  obtain rfl := Except.ok.inj (hx.symm.trans hx')
  obtain rfl := Except.ok.inj (hy.symm.trans hy')
  intro heq
  have hnumber := congrArg ExtraData.lastSyncNumber (hiff.1 heq).2
  exact absurd hnumber (by decide)

end Header

end CommitteeConsensus
