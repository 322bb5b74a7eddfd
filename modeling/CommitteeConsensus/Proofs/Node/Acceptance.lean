import CommitteeConsensus.Proofs.Engine.Governance
import CommitteeConsensus.Proofs.Engine.Settlement
import CommitteeConsensus.Proofs.Engine.Verification
import CommitteeConsensus.Proofs.Node.Steps

/-! # Produced blocks are accepted

    A block that a node prepares, finalizes and seals (`mint`) passes the verification of every
    node with the same configuration and chain, provided that its signer is a member of the
    governing committee. The seal of an outsider is refused for that reason and for no other.

    Both nodes look the committee up on their own, and because their caches agree with the chain
    both find the one that the chain publishes. Everything else that the verifier asks for is
    written into the header by one of the three steps.
-/

namespace CommitteeConsensus

namespace Node

open Step

/-- Prepares, finalizes and seals a block, if the wait before the seal is not given up. -/
def mint (h : Header) (transactions : List Transaction) (receipts : List Receipt) (abort : Abort) :
    Step (Option Block) := do
  let h ← prepare h
  let b ← finalize h transactions [] receipts
  let (sealed, _) ← sealBlock b abort
  return sealed

/-- A node whose cache can be relied on: it agrees with the chain and its store takes writes. -/
structure Consistent (n : Node) : Prop where
  agrees : n.snapshots.Agrees n.config n.chain
  writes : n.snapshots.store.rejectsWrites = false

/-- What a minted header says, and who signed it. -/
structure Minted (config : Config) (s : Snapshot) (parent : Header) (now : UInt64)
    (signer : Signer) (h g : Header) : Prop where
  number : g.number = h.number
  parentHash : g.parentHash = h.parentHash
  uncleHash : g.uncleHash = emptyUncleHash
  coinbase : g.coinbase = signer.address
  difficulty : g.difficulty = s.difficulty signer.address h.number
  time : g.time = max (earliestTime config parent s signer.address h.number) now
  committee : ∃ x, ExtraData.decode g.extra = .ok x ∧
    (config.isEpochEnd h.number → ∃ t, x.committee = electCommittee config h.number s t)
  signed : SignedBy signer g

/-- The three stages of a minted block. -/
theorem mint_eq_ok {p p' : Node} {h : Header} {transactions : List Transaction}
    {receipts : List Receipt} {abort : Abort} {b : Block}
    (hrun : mint h transactions receipts abort p = (.ok (some b), p')) :
    ∃ h₁ p₁ b₁ p₂ waited, prepare h p = (.ok h₁, p₁)
      ∧ finalize h₁ transactions [] receipts p₁ = (.ok b₁, p₂)
      ∧ sealBlock b₁ abort p₂ = (.ok (some b, waited), p') := by
  unfold mint at hrun
  obtain ⟨h₁, p₁, hprepare, hrun⟩ := Step.bind_eq_ok_iff.1 hrun
  obtain ⟨b₁, p₂, hfinal, hrun⟩ := Step.bind_eq_ok_iff.1 hrun
  obtain ⟨⟨sealed, waited⟩, p₃, hseal, hlast⟩ := Step.bind_eq_ok_iff.1 hrun
  simp only [pure_apply, outcome_eq_iff, Except.ok.injEq] at hlast
  obtain ⟨rfl, rfl⟩ := hlast
  exact ⟨h₁, p₁, b₁, p₂, waited, hprepare, hfinal, hseal⟩

theorem minted_of_mint {p p' : Node} {signer : Signer} {h parent : Header} {s : Snapshot}
    {transactions : List Transaction} {receipts : List Receipt} {abort : Abort} {b : Block}
    (hp : p.Consistent) (hauth : p.authorization = some ⟨signer.address, signer⟩)
    (hnumber : h.number ≠ 0)
    (hparent : p.chain.header? h.parentHash (h.number - 1) = some parent)
    (hs : canonicalSnapshot p.config p.chain (p.config.turnOf h.number) = .ok s)
    (hrun : mint h transactions receipts abort p = (.ok (some b), p')) :
    Minted p.config s parent p.now signer h b.header := by
  obtain ⟨cache, hlookup, hagrees, hwrites⟩ := governingSnapshot_nil hp.agrees hp.writes h.number
  rw [hs] at hlookup
  obtain ⟨h₁, p₁, b₁, p₂, waited, hstep, hfinal, hseal⟩ := mint_eq_ok hrun
  rw [prepare_eq_ok hnumber hauth hparent hlookup, outcome_eq_iff] at hstep
  obtain ⟨hprepared, rfl⟩ := hstep
  have hh₁ := (Except.ok.inj hprepared).symm
  obtain ⟨-, x, s', cache', g, state, -, hs', hsettle, rfl, hp₂⟩ := finalize_eq_ok_iff.1 hfinal
  have hauth₂ : p₂.authorization = some ⟨signer.address, signer⟩ := by
    rw [hp₂]
    exact hauth
  -- the second lookup finds the snapshot of the first one
  have hsame : s' = s := by
    obtain ⟨_, hlookup', -, -⟩ := governingSnapshot_nil hagrees hwrites h₁.number
    have hresult := congrArg Prod.fst (hs'.symm.trans hlookup')
    have hnumber₁ : h₁.number = h.number := by
      rw [hh₁]
      rfl
    rw [hnumber₁, hs] at hresult
    exact Except.ok.inj hresult
  subst hsame
  obtain ⟨y, hy⟩ := settles_of_settle hsettle
  subst hh₁
  -- the seal adds a signature to what was settled
  obtain ⟨auth, g', hauth', hsealed, rfl⟩ := sealBlock_eq_ok hseal
  have hsigner : auth = ⟨signer.address, signer⟩ := Option.some.inj (hauth'.symm.trans hauth₂)
  subst hsigner
  obtain ⟨hsigned, signature, hextra⟩ := signedBy_of_sealHeader hy.extra hsealed
  have hdecode := Header.decode_withExtra hextra
  obtain ⟨bytes, -, hg⟩ := Header.withExtra_eq_ok_iff.1 hextra
  have hfield {α : Type} (f : Header → α) (hf : f { g with extra := bytes } = f g) :
      f g' = f g := by
    rw [hg]
    exact hf
  exact {
    number := (hfield Header.number rfl).trans hy.number
    parentHash := (hfield Header.parentHash rfl).trans hy.parentHash
    uncleHash := (hfield Header.uncleHash rfl).trans hy.uncleHash
    coinbase := (hfield Header.coinbase rfl).trans hy.coinbase
    difficulty := (hfield Header.difficulty rfl).trans hy.difficulty
    time := (hfield Header.time rfl).trans hy.time
    committee := ⟨_, hdecode, hy.elected⟩
    signed := hsigned }

/-- A minted header has all that verification asks for apart from a member's seal. -/
theorem Minted.checkHeader_eq_ok {config : Config} {chain : Chain} {s : Snapshot}
    {parent h g : Header} {signer : Signer} {now now' : UInt64}
    (hg : Minted config s parent now signer h g) (hsync : config.syncWindow = 0)
    (hchain : chain.Reachable) (hnumber : h.number ≠ 0)
    (hparent : chain.header? h.parentHash (h.number - 1) = some parent)
    (hs : canonicalSnapshot config chain (config.turnOf h.number) = .ok s)
    (hnow : g.time ≤ now') : checkHeader config chain now' [] g = .ok parent := by
  obtain ⟨x, hx, helected⟩ := hg.committee
  obtain ⟨hhash, hparentNumber⟩ := Chain.header?_eq_some hchain hparent
  -- the committee in office was published once, so it may be published again
  obtain ⟨_, _, _, hrecord⟩ := ofRecord_of_freshSnapshot hs
  have hoffice := Snapshot.publicationFlaw?_toRecord_ofRecord hrecord
  have hearliest : parent.time ≤ g.time := by
    have hbefore := time_le_earliestTime config parent s signer.address h.number
    have hmax : earliestTime config parent s signer.address h.number ≤ g.time := by
      rw [hg.time]
      exact Word.left_le_max _ _
    exact UInt64.le_trans hbefore hmax
  apply checkHeader_eq_ok_iff.2
  refine ⟨by rwa [hg.number], x, hx, .inl hsync, hnow, ?_, hg.uncleHash, ?_, hearliest⟩
  · intro hend
    rw [hg.number] at hend
    obtain ⟨t, ht⟩ := helected hend
    rw [ht]
    exact publicationFlaw?_electCommittee hoffice t
  · apply findParent_eq_ok_iff.2
    refine ⟨?_, ?_, ?_⟩
    · show chain.header? g.parentHash (g.number - 1) = some parent
      rw [hg.parentHash, hg.number, hparent]
    · rw [hparentNumber, hg.number]
      simp
    · rw [hhash, hg.parentHash]

/-- Every consistent node over the same chain accepts a minted header from a member of the
    governing committee and refuses it, as unauthorized, from anybody else. -/
theorem verifyHeader_minted {p p' v : Node} {signer : Signer} {h parent : Header} {s : Snapshot}
    {transactions : List Transaction} {receipts : List Receipt} {abort : Abort} {b : Block}
    (hsync : p.config.syncWindow = 0) (hchain : p.chain.Reachable)
    (hp : p.Consistent) (hv : v.Consistent)
    (hconfig : v.config = p.config) (hsame : v.chain = p.chain)
    (hauth : p.authorization = some ⟨signer.address, signer⟩) (hnumber : h.number ≠ 0)
    (hparent : p.chain.header? h.parentHash (h.number - 1) = some parent)
    (hs : canonicalSnapshot p.config p.chain (p.config.turnOf h.number) = .ok s)
    (hrun : mint h transactions receipts abort p = (.ok (some b), p'))
    (hrecover : RecoversSeal signer b.header) (hnow : b.header.time ≤ v.now) :
    (verifyHeader b.header true v).1 = if signer.address ∈ s.rank then .ok ()
      else .error (.error (.unauthorized signer.address)) := by
  have hminted := minted_of_mint hp hauth hnumber hparent hs hrun
  have hcheck := hminted.checkHeader_eq_ok hsync hchain hnumber hparent hs hnow
  have hauthor := hminted.signed.author_eq_ok hrecover
  -- the verifier finds the producer's committee
  obtain ⟨cache, hlookup, -, -⟩ := governingSnapshot_nil hv.agrees hv.writes b.header.number
  rw [hconfig, hsame, hminted.number, hs] at hlookup
  rw [verifyHeader_fst, hconfig, hsame]
  rw [← hminted.number] at hlookup
  rw [verifyHeader_of_snapshot hcheck hlookup]
  obtain ⟨_, _, _, hrecord⟩ := ofRecord_of_freshSnapshot hs
  have hmember := Snapshot.isMember_ofRecord hrecord signer.address
  by_cases hrank : signer.address ∈ s.rank
  · have hseal : checkSeal p.config s parent b.header = .ok () := by
      refine checkSeal_eq_ok_iff.2 ⟨signer.address, hauthor, hmember.2 hrank, ?_, ?_⟩
      · rw [hminted.difficulty, hminted.number]
      · rw [hminted.number, hminted.time]
        exact Word.left_le_max _ _
    rw [hseal, if_pos hrank, mapError_ok]
  · have hseal : checkSeal p.config s parent b.header = .error (.unauthorized signer.address) :=
      checkSeal_of_not_isMember hauthor (mt hmember.1 hrank)
    rw [hseal, if_neg hrank, mapError_error]

/-- The only member closes the first epoch, and a node that has just started agrees. -/
theorem verifyHeader_minted_lone :
    ∃ b p', mint (Lone.next Lone.signer.address) [] [] .never Lone.producer = (.ok (some b), p')
      ∧ (verifyHeader b.header true Lone.producer).1 = .ok () := by
  have hchain : Lone.producer.chain.Reachable := Chain.reachable_ofGenesis _
  have hconsistent : Lone.producer.Consistent := ⟨SnapshotCache.holds_ofStore_empty 128, rfl⟩
  have hs : canonicalSnapshot Lone.producer.config Lone.producer.chain
      (Lone.producer.config.turnOf (Lone.next Lone.signer.address).number)
      = .ok (Lone.term Lone.config (Lone.genesis Lone.signer.address) 0 Lone.signer.address) :=
    Lone.canonicalSnapshot_genesis (by decide +kernel)
  have hparent : Lone.producer.chain.header? (Lone.next Lone.signer.address).parentHash
      ((Lone.next Lone.signer.address).number - 1) = some (Lone.genesis Lone.signer.address) :=
    Chain.header?_insert_self {} (Lone.genesis Lone.signer.address)
  obtain ⟨minted, p', hrun, hminted⟩ := exists_outcome (
    show (mint (Lone.next Lone.signer.address) [] [] .never Lone.producer).1.toOption.any
      (fun b => b.any fun b => b.header.author.toOption = some Lone.signer.address
        && b.header.time ≤ Lone.producer.now) = true by decide +kernel)
  cases minted with
  | none => simp at hminted
  | some b =>
    rw [Option.any_some, Bool.and_eq_true] at hminted
    have hauthor := toOption_eq_some_iff.1 (of_decide_eq_true hminted.1)
    have hsigned := (minted_of_mint hconsistent rfl (by decide) hparent hs hrun).signed
    have hverdict := verifyHeader_minted (v := Lone.producer) rfl hchain hconsistent hconsistent
      rfl rfl rfl (by decide) hparent hs hrun (hsigned.recoversSeal hauthor)
      (of_decide_eq_true hminted.2)
    have hoffice : Lone.signer.address
        ∈ (Lone.term Lone.config (Lone.genesis Lone.signer.address) 0 Lone.signer.address).rank :=
      List.mem_singleton_self _
    rw [if_pos hoffice] at hverdict
    exact ⟨b, p', hrun, hverdict⟩

end Node

end CommitteeConsensus
