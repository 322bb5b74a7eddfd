import CommitteeConsensus.Engine.Settlement
import CommitteeConsensus.Proofs.Chain.ExtraData
import CommitteeConsensus.Proofs.Committee.Election
import CommitteeConsensus.Proofs.State.Wealth

/-! # Settled blocks

    What a settled header says, and what of the header it was made from decides it: the number,
    the producer and the extra-data. The committee that is elected at the end of an epoch may
    always be published (`publicationFlaw?_electCommittee`).

    Settling overwrites the roots and the checkpoint, and the committee at the end of an epoch;
    all else is passed through. A header that was settled once therefore settles to itself on
    the same state, whatever signature it has got since (`settle_settled`).
-/

namespace CommitteeConsensus

/-! ## Elections -/

/-- The committee that an epoch-end block elects may be published, if the one in office may. -/
theorem publicationFlaw?_electCommittee {config : Config} {number : UInt64} {current : Snapshot}
    (hcurrent : current.toRecord.publicationFlaw? config.committeeMaxSize = none) (s : State) :
    (electCommittee config number current s).publicationFlaw? config.committeeMaxSize = none := by
  -- the bindings that are added last do not matter for the shape of a record
  apply CommitteeRecord.shapeFlaw?_eq_none_iff.2
  unfold electCommittee
  dsimp only
  split
  · exact CommitteeRecord.shapeFlaw?_eq_none_iff.1 hcurrent
  · next hsome =>
    have hrank := mt List.isEmpty_iff.2 hsome
    exact ⟨hrank, rankCandidates_shape⟩

/-- A candidate is known by its address: the state says the rest. -/
theorem determined_electionCandidates (config : Config) (number : UInt64) (s : State) :
    Determined (electionCandidates config number s) := by
  intro c hc d hd haddress
  obtain ⟨a, -, rfl⟩ := List.mem_map.1 hc
  obtain ⟨b, -, rfl⟩ := List.mem_map.1 hd
  dsimp only at haddress
  rw [haddress]

/-- A snapshot can be made from the committee that an epoch-end block publishes, if one can be
    made from the committee in office. -/
theorem snapshotFlaw?_electCommittee {config : Config} {number : UInt64} {current : Snapshot}
    (hcurrent : current.toRecord.snapshotFlaw? config.committeeMaxSize = none) (s : State) :
    (electCommittee config number current s).snapshotFlaw? config.committeeMaxSize = none := by
  unfold electCommittee
  dsimp only
  split
  · exact hcurrent
  · next hsome =>
    exact snapshotFlaw?_rankCandidates (determined_electionCandidates config number s)
      (mt List.isEmpty_iff.2 hsome)

/-- The members bring their bound accounts with them, and nobody else does. -/
theorem accountBinding_electCommittee (config : Config) (number : UInt64) (current : Snapshot)
    (s : State) (a : Address) :
    (electCommittee config number current s).accountBinding.get? a
      = if a ∈ (electCommittee config number current s).rank then s.bindingTable.get? a
        else none := by
  show (s.bindingTable.filterKeys _).get? a = _
  rw [Table.get?_filterKeys]
  exact if_congr List.contains_iff_mem rfl rfl

section

variable {config : Config} {s : State}

/-- As soon as a candidate has stake, the committee in office plays no part in the election. -/
theorem electCommittee_of_staked (hmax : config.committeeMaxSize ≠ 0) (number : UInt64)
    (current : Snapshot) (hstake : ∃ a ∈ s.candidates, 0 < s.latestStake a) :
    let r := rankCandidates (electionCandidates config number s) config.rewards.base
      config.committeeMaxSize
    r.rank ≠ [] ∧ electCommittee config number current s
      = { r with accountBinding := s.bindingTable.filterKeys r.rank.contains } := by
  have hsome : (rankCandidates (electionCandidates config number s) config.rewards.base
      config.committeeMaxSize).rank ≠ [] := by
    obtain ⟨a, ha, hpos⟩ := hstake
    rw [rank_rankCandidates, Ne, List.map_eq_nil_iff]
    exact elected_ne_nil hmax ⟨_, List.mem_map_of_mem ha, hpos⟩
  refine ⟨hsome, ?_⟩
  unfold electCommittee
  dsimp only
  rw [CommitteeRecord.isEmpty, if_neg (mt List.isEmpty_iff.1 hsome)]

/-- The reward shares of the published committee are then all of `base`. -/
theorem total_proportion_electCommittee (hmax : config.committeeMaxSize ≠ 0) (number : UInt64)
    (current : Snapshot) (hstake : ∃ a ∈ s.candidates, 0 < s.latestStake a) :
    Word.total (electCommittee config number current s).proportion
      = config.rewards.base.toNat := by
  obtain ⟨hsome, helected⟩ := electCommittee_of_staked hmax number current hstake
  rw [helected]
  exact total_proportion_rankCandidates hsome

theorem rank_electCommittee_of_staked (hmax : config.committeeMaxSize ≠ 0) (number : UInt64)
    (current : Snapshot) (hstake : ∃ a ∈ s.candidates, 0 < s.latestStake a) :
    (electCommittee config number current s).rank
      = (elected (electionCandidates config number s) config.committeeMaxSize).map
        Candidate.address := by
  obtain ⟨-, helected⟩ := electCommittee_of_staked hmax number current hstake
  rw [helected, rank_rankCandidates]

/-- Its members are candidates, each with stake in the state that elects them. -/
theorem staked_of_mem_electCommittee (hmax : config.committeeMaxSize ≠ 0) {number : UInt64}
    {current : Snapshot} (hstake : ∃ a ∈ s.candidates, 0 < s.latestStake a) {a : Address}
    (ha : a ∈ (electCommittee config number current s).rank) :
    a ∈ s.candidates ∧ 0 < s.latestStake a := by
  rw [rank_electCommittee_of_staked hmax number current hstake] at ha
  obtain ⟨c, hc, rfl⟩ := List.mem_map.1 ha
  obtain ⟨hcandidate, hpos⟩ := mem_of_mem_elected hc
  obtain ⟨a, hmem, rfl⟩ := List.mem_map.1 hcandidate
  exact ⟨hmem, hpos⟩

end

theorem electCommittee_creditAll (config : Config) (number : UInt64) (current : Snapshot)
    (s : State) (shares : Shares) :
    electCommittee config number current (s.creditAll shares)
      = electCommittee config number current s := by
  rw [State.creditAll_eq]
  rfl

theorem electCommittee_payStorage {config : Config} {number : UInt64} {surplus : Amount}
    {s t : State} {ledger ledger' : RewardLedger}
    (h : payStorage config number surplus s ledger = .ok (t, ledger')) (current : Snapshot) :
    electCommittee config number current t = electCommittee config number current s := by
  obtain ⟨plan, -, h⟩ := bind_eq_ok_iff.1 h
  obtain ⟨shares?, -, h⟩ := bind_eq_ok_iff.1 h
  cases shares? with
  | none => rw [(Prod.mk.inj (Except.ok.inj h)).1]
  | some shares =>
    rw [← (Prod.mk.inj (Except.ok.inj h)).1]
    exact electCommittee_creditAll config number current s shares

/-- A committee is elected at the end of an epoch and at no other block. The rewards that are paid
    before the election change nothing about it. -/
theorem elected_of_payRewards {config : Config} {number : UInt64} {coinbase : Address}
    {current : Snapshot} {s paid : State} {elected : Option CommitteeRecord}
    (h : payRewards config number coinbase current s = .ok (paid, elected)) :
    elected = if config.isEpochEnd number then some (electCommittee config number current s)
      else none := by
  unfold payRewards at h
  obtain ⟨closed, hclosed, h⟩ := bind_eq_ok_iff.1 h
  obtain ⟨⟨t, ledger⟩, -, h⟩ := bind_eq_ok_iff.1 h
  obtain ⟨-, rfl⟩ := Prod.mk.inj (Except.ok.inj h)
  unfold closeEpoch at hclosed
  by_cases hend : config.isEpochEnd number
  · rw [if_pos hend] at hclosed ⊢
    obtain ⟨⟨u, ledger'⟩, hpay, hpayout⟩ := bind_eq_ok_iff.1 hclosed
    rw [← Except.ok.inj hpayout, ← electCommittee_payStorage hpay]
  · rw [if_neg hend] at hclosed ⊢
    rw [← Except.ok.inj hclosed]

/-! ## Settled headers -/

section

variable {config : Config} {current : Snapshot} {h h' : Header} {x : ExtraData}
  {transactions : List Transaction} {receipts : List Receipt} {s s' : State}

theorem settledHeader_eq_ok_iff :
    settledHeader h x transactions receipts s = .ok h' ↔ ∃ bytes, x.encode = .ok bytes
      ∧ h' = { h with
          extra := bytes
          stateRoot := s.root
          uncleHash := emptyUncleHash
          transactionsRoot := transactionsRoot transactions
          receiptsRoot := receiptsRoot receipts } := by
  rw [settledHeader, bind_eq_ok_iff]
  constructor
  · rintro ⟨g, hg, heq⟩
    obtain ⟨bytes, hbytes, rfl⟩ := Header.withExtra_eq_ok_iff.1 hg
    exact ⟨bytes, hbytes, (Except.ok.inj heq).symm⟩
  · rintro ⟨bytes, hbytes, rfl⟩
    exact ⟨_, Header.withExtra_eq_ok_iff.2 ⟨bytes, hbytes, rfl⟩, rfl⟩

/-- The stages of a block that was settled: rewards, the return of stakes, the header. -/
theorem settle_eq_ok_iff :
    settle config current h x transactions receipts s = (.ok h', s')
      ↔ ∃ paid elected, payRewards config h.number h.coinbase current s = .ok (paid, elected)
        ∧ refundMatured config h.number paid = (.ok (), s')
        ∧ settledHeader h (settledExtra x elected paid) transactions receipts s' = .ok h' := by
  unfold settle
  constructor
  · -- each stage has succeeded, or the whole would not have
    intro hsettle
    split at hsettle
    · simp at hsettle
    · next paid elected hpaid =>
      dsimp only at hsettle
      split at hsettle
      · simp at hsettle
      · next t hrefund =>
        split at hsettle
        · simp at hsettle
        · next g hg =>
          simp only [Prod.mk.injEq, Except.ok.injEq] at hsettle
          obtain ⟨rfl, rfl⟩ := hsettle
          exact ⟨paid, elected, hpaid, hrefund, hg⟩
  · rintro ⟨paid, elected, hpaid, hrefund, hheader⟩
    simp only [hpaid, hrefund, hheader]

/-- What settling leaves of a header, and what it writes into it. -/
structure Settles (config : Config) (current : Snapshot) (h : Header) (x : ExtraData)
    (h' : Header) (y : ExtraData) : Prop where
  /-- The extra-data that the settled header carries. -/
  extra : ExtraData.decode h'.extra = .ok y
  number : h'.number = h.number
  parentHash : h'.parentHash = h.parentHash
  coinbase : h'.coinbase = h.coinbase
  difficulty : h'.difficulty = h.difficulty
  time : h'.time = h.time
  uncleHash : h'.uncleHash = emptyUncleHash
  signature : y.signature = x.signature
  elected : config.isEpochEnd h.number →
    ∃ t, y.committee = electCommittee config h.number current t
  kept : ¬ config.isEpochEnd h.number → y.committee = x.committee

theorem settles_of_settle
    (hsettle : settle config current h x transactions receipts s = (.ok h', s')) :
    ∃ y, Settles config current h x h' y := by
  obtain ⟨paid, elected, hpaid, -, hheader⟩ := settle_eq_ok_iff.1 hsettle
  have helected := elected_of_payRewards hpaid
  obtain ⟨bytes, hbytes, rfl⟩ := settledHeader_eq_ok_iff.1 hheader
  have hextra := ExtraData.decode_encode hbytes
  refine ⟨settledExtra x elected paid, hextra, rfl, rfl, rfl, rfl, rfl, rfl, rfl, ?_, ?_⟩
  · intro hend
    rw [if_pos hend] at helected
    rw [helected]
    exact ⟨s, rfl⟩
  · intro hend
    rw [if_neg hend] at helected
    rw [helected]
    rfl

/-- The last block of an epoch carries the committee that the state elects. -/
theorem committee_of_settle
    (hsettle : settle config current h x transactions receipts s = (.ok h', s'))
    (hend : config.isEpochEnd h.number) : ∃ y, ExtraData.decode h'.extra = .ok y
      ∧ y.committee = electCommittee config h.number current s := by
  obtain ⟨paid, elected, hpaid, -, hheader⟩ := settle_eq_ok_iff.1 hsettle
  have helected := elected_of_payRewards hpaid
  rw [if_pos hend] at helected
  obtain ⟨bytes, hbytes, rfl⟩ := settledHeader_eq_ok_iff.1 hheader
  exact ⟨settledExtra x elected paid, ExtraData.decode_encode hbytes, by rw [helected]; rfl⟩

/-- What is settled a second time, after a signature, keeps its checkpoint and committee. -/
theorem settledExtra_settledExtra (x : ExtraData) (elected : Option CommitteeRecord) (s : State)
    (signature : List UInt8) :
    settledExtra { settledExtra x elected s with signature } elected s
      = { settledExtra x elected s with signature } := by
  unfold settledExtra
  cases elected <;> rfl

/-- A settled header settles to itself on the same state, whatever signature it carries. -/
theorem settle_settled {y : ExtraData} {h'' : Header} {signature : List UInt8}
    (hsettle : settle config current h x transactions receipts s = (.ok h', s'))
    (hy : ExtraData.decode h'.extra = .ok y)
    (hsigned : h'.withExtra { y with signature } = .ok h'') :
    settle config current h'' { y with signature } transactions receipts s = (.ok h'', s') := by
  obtain ⟨paid, elected, hpaid, hrefund, hheader⟩ := settle_eq_ok_iff.1 hsettle
  obtain ⟨bytes, hbytes, rfl⟩ := settledHeader_eq_ok_iff.1 hheader
  obtain ⟨bytes', hbytes', rfl⟩ := Header.withExtra_eq_ok_iff.1 hsigned
  -- what the settled header carries is what was written into it
  have hwritten : y = settledExtra x elected paid := by
    have hdecoded := ExtraData.decode_encode hbytes
    exact Except.ok.inj (hy.symm.trans hdecoded)
  subst hwritten
  apply settle_eq_ok_iff.2
  refine ⟨paid, elected, hpaid, hrefund, ?_⟩
  rw [settledExtra_settledExtra]
  exact settledHeader_eq_ok_iff.2 ⟨bytes', hbytes', rfl⟩

end

end CommitteeConsensus
