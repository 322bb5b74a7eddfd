import CommitteeConsensus.Proofs.Node.Acceptance

/-! # Author and coinbase

    The coin reward of a block goes to the account that its header names as coinbase, while the
    right to seal is checked for the account that the seal recovers to, the author. Nothing ties
    the two together: a member who puts any other account into an accepted header and seals it
    anew gets it accepted again (`author_eq_coinbase_iff`). Only the member's own choice makes
    the two equal, as it does in every header that a node prepares (`Minted.author_eq_coinbase`).
-/

namespace CommitteeConsensus

namespace Node

/-- A minted header rewards its author, as far as signatures can be recovered. -/
theorem Minted.author_eq_coinbase {config : Config} {s : Snapshot} {parent h g : Header}
    {now : UInt64} {signer : Signer} (hg : Minted config s parent now signer h g)
    (hrecover : RecoversSeal signer g) : g.author = .ok g.coinbase := by
  rw [hg.coinbase]
  exact hg.signed.author_eq_ok hrecover

/-- What a header says apart from its coinbase and its signature. -/
structure SameButCoinbase (h h' : Header) (x : ExtraData) : Prop where
  number : h'.number = h.number
  parentHash : h'.parentHash = h.parentHash
  uncleHash : h'.uncleHash = h.uncleHash
  difficulty : h'.difficulty = h.difficulty
  time : h'.time = h.time
  extra : ∃ signature, ExtraData.decode h'.extra = .ok { x with signature }

/-- Neither the coinbase nor the signature plays a part in what is checked before the seal. -/
theorem SameButCoinbase.checkHeader_eq_ok {config : Config} {chain : Chain} {now : UInt64}
    {pending : List Header} {parent h h' : Header} {x : ExtraData} (hsame : SameButCoinbase h h' x)
    (hx : ExtraData.decode h.extra = .ok x)
    (hcheck : checkHeader config chain now pending h = .ok parent) :
    checkHeader config chain now pending h' = .ok parent := by
  obtain ⟨hnumber, y, hy, hsync, hnow, hcommittee, huncles, hfind, htime⟩ :=
    checkHeader_eq_ok_iff.1 hcheck
  have hread : y = x := Except.ok.inj (hy.symm.trans hx)
  subst hread
  obtain ⟨signature, hextra⟩ := hsame.extra
  obtain ⟨hcandidate, hlink, hhash⟩ := findParent_eq_ok_iff.1 hfind
  apply checkHeader_eq_ok_iff.2
  rw [hsame.number, hsame.time, hsame.uncleHash]
  refine ⟨hnumber, _, hextra, hsync, hnow, hcommittee, huncles, ?_, htime⟩
  apply findParent_eq_ok_iff.2
  rw [hsame.number, hsame.parentHash]
  refine ⟨?_, hlink, hhash⟩
  unfold parentCandidate? at hcandidate ⊢
  rw [hsame.number, hsame.parentHash]
  exact hcandidate

theorem sameButCoinbase_of_withExtra {h h' : Header} {x : ExtraData} {c : Address}
    {signature : List UInt8}
    (hextra : ({ h with coinbase := c } : Header).withExtra { x with signature } = .ok h') :
    SameButCoinbase h h' x := by
  have hdecode := Header.decode_withExtra hextra
  obtain ⟨_, -, rfl⟩ := Header.withExtra_eq_ok_iff.1 hextra
  exact ⟨rfl, rfl, rfl, rfl, rfl, signature, hdecode⟩

/-- The author of an accepted header may put any account `c` into it and seal it anew: the node
    accepts the new header too. Its author is the account that it rewards exactly if `c` is the
    author's own. -/
theorem author_eq_coinbase_iff {v : Node} {h h' : Header} {signer : Signer} {c : Address}
    (haccepted : (verifyHeader h true v).1 = .ok ()) (hauthor : h.author = .ok signer.address)
    (hseal : sealHeader ⟨signer.address, signer⟩ { h with coinbase := c } = .ok h')
    (hrecover : RecoversSeal signer h') :
    (verifyHeader h' true v).1 = .ok ()
      ∧ (h'.author = .ok h'.coinbase ↔ c = signer.address) := by
  rw [verifyHeader_fst, mapError_eq_ok_iff] at haccepted
  obtain ⟨parent, s, hcheck, hs, hchecked⟩ := verifyHeader_eq_ok_iff.1 haccepted
  obtain ⟨-, x, hx, -⟩ := checkHeader_eq_ok_iff.1 hcheck
  obtain ⟨a, ha, hmember, hdifficulty, hearliest⟩ := checkSeal_eq_ok_iff.1 hchecked
  have hsigner : a = signer.address := Except.ok.inj (ha.symm.trans hauthor)
  subst hsigner
  -- the new seal changes the signature and leaves the rest as it is
  obtain ⟨hsigned, signature, hextra⟩ :=
    signedBy_of_sealHeader (h := { h with coinbase := c }) hx hseal
  have hauthor' := hsigned.author_eq_ok hrecover
  have hsame := sameButCoinbase_of_withExtra hextra
  have hcoinbase : h'.coinbase = c := by
    obtain ⟨_, -, rfl⟩ := Header.withExtra_eq_ok_iff.1 hextra
    rfl
  constructor
  · rw [verifyHeader_fst, mapError_eq_ok_iff]
    have hcheck' := hsame.checkHeader_eq_ok hx hcheck
    have hs' : (governingSnapshot v.config v.chain [] h'.number v.snapshots).1 = .ok s := by
      rw [hsame.number]
      exact hs
    have hchecked' : checkSeal v.config s parent h' = .ok () := by
      apply checkSeal_eq_ok_iff.2
      rw [hsame.number, hsame.difficulty, hsame.time]
      exact ⟨signer.address, hauthor', hmember, hdifficulty, hearliest⟩
    exact verifyHeader_eq_ok_iff.2 ⟨parent, s, hcheck', hs', hchecked'⟩
  · rw [hauthor', hcoinbase, Except.ok.injEq]
    exact eq_comm

/-- A header in which the only member gives its reward to somebody else. -/
def donation : Header :=
  Lone.child (Lone.genesis Lone.signer.address)
    { Lone.office Lone.signer.address with
      signature := [152, 79, 184, 142, 248, 110, 240, 118, 24, 216, 155, 46, 252, 98, 35, 154, 166,
        141, 236, 239, 8, 195, 39, 247, 240, 81, 46, 1, 58, 58, 57, 0, 53, 81, 129, 18, 222, 112,
        96, 136, 100, 59, 255, 168, 82, 147, 60, 140, 243, 131, 227, 171, 104, 181, 5, 44, 215,
        131, 154, 22, 35, 98, 215, 245, 0] }

/-- The donation is accepted although its author is not the account that it rewards. -/
theorem author_ne_coinbase_donation :
    (verifyHeader donation true Lone.producer).1 = .ok ()
      ∧ donation.author ≠ .ok donation.coinbase := by
  have hauthor : donation.author = .ok Lone.signer.address :=
    toOption_eq_some_iff.1 (by decide +kernel)
  have hcheck : checkHeader Lone.producer.config Lone.producer.chain Lone.producer.now [] donation
      = .ok (Lone.genesis Lone.signer.address) :=
    Lone.checkHeader_child (by decide +kernel) (by decide) rfl (by decide) (by decide)
      (fun _ => rfl) (Chain.header?_insert_self {} (Lone.genesis Lone.signer.address))
  have hs : (governingSnapshot Lone.producer.config Lone.producer.chain [] donation.number
      Lone.producer.snapshots).1
      = .ok (Lone.term Lone.config (Lone.genesis Lone.signer.address) 0 Lone.signer.address) :=
    Lone.governingSnapshot_ofGenesis rfl (by decide +kernel) rfl
  have hchecked : checkSeal Lone.producer.config
      (Lone.term Lone.config (Lone.genesis Lone.signer.address) 0 Lone.signer.address)
      (Lone.genesis Lone.signer.address) donation = .ok () :=
    checkSeal_eq_ok_iff.2 ⟨_, hauthor, by decide +kernel, by decide +kernel, by decide +kernel⟩
  have haccepted : (verifyHeader donation true Lone.producer).1 = .ok () := by
    rw [verifyHeader_fst, mapError_eq_ok_iff]
    exact verifyHeader_eq_ok_iff.2 ⟨_, _, hcheck, hs, hchecked⟩
  -- signing is deterministic: the member's new seal is the one that the donation carries
  have hseal : sealHeader ⟨Lone.signer.address, Lone.signer⟩
      { donation with coinbase := .zero 20 } = .ok donation :=
    toOption_eq_some_iff.1 (by decide +kernel)
  obtain ⟨-, x, hx, -⟩ := checkHeader_eq_ok_iff.1 hcheck
  have hsigned := (signedBy_of_sealHeader (h := { donation with coinbase := .zero 20 }) hx hseal).1
  obtain ⟨hagain, hlaw⟩ :=
    author_eq_coinbase_iff haccepted hauthor hseal (hsigned.recoversSeal hauthor)
  exact ⟨hagain, fun h => absurd (hlaw.1 h) (by decide)⟩

end Node

end CommitteeConsensus
