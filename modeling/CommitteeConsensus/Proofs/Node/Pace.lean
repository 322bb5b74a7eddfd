import CommitteeConsensus.Proofs.Chain.Extension
import CommitteeConsensus.Proofs.Committee.Rotation
import CommitteeConsensus.Proofs.Node.Batch
import CommitteeConsensus.Proofs.Node.Publication
import Mathlib.Data.List.Induction

/-! # How fast a batch may run

    A member that is not in turn waits longer and seals with a lower difficulty, by as many periods
    as points. So a header that is accepted after its parent comes at least one period later, and
    one more for each point that its difficulty lacks of the size of its committee (`Keeps`).
    Along a batch the periods add up: whatever committees the batch itself puts into office, it
    can run no faster than the difficulty that it accumulates allows (`paced_of_verifyHeaders`).
-/

namespace CommitteeConsensus

/-! ## One header -/

/-- The periods that a run of headers waits: one each, and one more for each point that a difficulty
    lacks of the size of its committee. -/
def periods (run : List (Header × Snapshot)) : Nat :=
  (run.map fun g => 1 + g.2.size - g.1.difficulty.toNat).sum

/-- The header follows `parent` at the pace of its committee. -/
structure Keeps (config : Config) (parent h : Header) (s : Snapshot) : Prop where
  number : h.number.toNat = parent.number.toNat + 1
  parentHash : h.parentHash = parent.hash
  member : ∃ a, h.author = .ok a ∧ a ∈ s.rank
  one_le_difficulty : 1 ≤ h.difficulty.toNat
  difficulty_le_size : h.difficulty.toNat ≤ s.size
  not_before : parent.time ≤ h.time
  time : min Word.max (parent.time.toNat + config.period.toNat * periods [(h, s)]) ≤ h.time.toNat

variable {config : Config} {chain : Chain} {now : UInt64} {pending : List Header}
  {parent h : Header} {s : Snapshot}

/-- However the sums of an earliest time saturate, it is one period after the parent and one more
    for each turn that the account is away. -/
theorem toNat_earliestTime (config : Config) (parent : Header) {a : Address} {number : UInt64}
    {distance : Nat} (hdistance : s.slotDistance? a number = some distance) :
    (earliestTime config parent s a number).toNat
      = min (parent.time.toNat + config.period.toNat * (1 + distance)) Word.max := by
  rw [earliestTime, Word.toNat_satAdd, Word.toNat_satAdd, Snapshot.toNat_sealDelay _ hdistance,
    Nat.mul_add, Nat.mul_one, Nat.mul_comm distance]
  omega

/-- A header that is in order and sealed by a built committee keeps its pace. -/
theorem keeps_of_checks (hvalid : config.validate = .ok ())
    (hbuilt : s.Built config (config.turnOf h.number))
    (hcheck : checkHeader config chain now pending h = .ok parent)
    (hseal : checkSeal config s parent h = .ok ()) : Keeps config parent h s := by
  obtain ⟨hnumber, _, -, -, -, -, -, hparent, htime⟩ := checkHeader_eq_ok_iff.1 hcheck
  obtain ⟨-, hnext, hhash⟩ := findParent_eq_ok_iff.1 hparent
  have hchild : h.IsChildOf parent := ⟨hnext.symm, hhash.symm⟩
  obtain ⟨a, hauthor, hmember, hdifficulty, hearliest⟩ := checkSeal_eq_ok_iff.1 hseal
  obtain ⟨_, _, _, hrecord⟩ := hbuilt.made
  -- the member has a turn, so its difficulty tells how far away the turn is
  have hrank : a ∈ s.rank := (Snapshot.isMember_ofRecord hrecord a).1 hmember
  have hscheduled := Snapshot.scheduled_ofRecord hvalid hrecord
  obtain ⟨distance, hdistance⟩ :=
    hscheduled.exists_slotDistance (Snapshot.epochStart_le_ofRecord hrecord) hrank
  have hlt := Snapshot.slotDistance?_lt_size hdistance
  have hsum := hscheduled.difficulty_add_distance hdistance
  rw [← hdifficulty] at hsum
  have hperiods : periods [(h, s)] = 1 + distance := by
    simp only [periods, List.map_cons, List.map_nil, List.sum_cons, List.sum_nil]
    omega
  refine {
    number := hchild.toNat_number hnumber
    parentHash := hchild.2
    member := ⟨a, hauthor, hrank⟩
    one_le_difficulty := by omega
    difficulty_le_size := by omega
    not_before := htime
    time := ?_ }
  rw [UInt64.le_iff_toNat_le, toNat_earliestTime config parent hdistance] at hearliest
  rw [hperiods, Nat.min_comm]
  exact hearliest

/-! ## Runs -/

/-- The header before the next one: the last of a run, or the one that the run starts from. -/
def headOf (p : Header) (run : List (Header × Snapshot)) : Header := (run.map Prod.fst).getLastD p

theorem headOf_append (p : Header) (run : List (Header × Snapshot)) :
    headOf p (run ++ [(h, s)]) = h := by
  simp [headOf]

theorem periods_append (run : List (Header × Snapshot)) :
    periods (run ++ [(h, s)]) = periods run + periods [(h, s)] := by
  simp [periods]

/-- Along a run each of whose headers keeps its pace, numbers go up by one and the periods add
    up. -/
theorem paced_of_keeps {p : Header} {run : List (Header × Snapshot)}
    (hrun : ∀ before h s after, run = before ++ (h, s) :: after →
      Keeps config (headOf p before) h s)
    {before after : List (Header × Snapshot)} (hsplit : run = before ++ (h, s) :: after) :
    h.number.toNat = p.number.toNat + 1 + before.length
      ∧ min Word.max (p.time.toNat + config.period.toNat * periods (before ++ [(h, s)]))
        ≤ h.time.toNat := by
  -- the induction is on the headers before, the latest first: it is the one that `h` follows
  induction before using List.reverseRecOn generalizing h s after with
  | nil =>
    have hkeeps := hrun [] h s after hsplit
    exact ⟨hkeeps.number, hkeeps.time⟩
  | append_singleton before g ih =>
    obtain ⟨g, t⟩ := g
    have hkeeps := hrun (before ++ [(g, t)]) h s after hsplit
    rw [headOf_append] at hkeeps
    have hbefore : run = before ++ (g, t) :: (h, s) :: after := by
      rw [hsplit, List.append_assoc, List.singleton_append]
    obtain ⟨hnumber, htime⟩ := ih hbefore
    have hstep := hkeeps.time
    constructor
    · rw [hkeeps.number, hnumber, List.length_append, List.length_singleton]
      omega
    · rw [periods_append, Nat.mul_add]
      omega

namespace Node

open Step

/-! ## Batches -/

variable {n m : Node} {aborted : Nat → Bool} {seals : List Bool} {done rest : List Header}

/-- What a node does with the next header of a batch that it accepts with its seal. -/
theorem keeps_of_verify (hvalid : n.config.validate = .ok ())
    (hbuilt : n.snapshots.Holds (Snapshot.Built n.config))
    (hverify : n.verify done h true = (.ok (), m)) :
    (∃ parent s, parentCandidate? n.chain done h = some parent
        ∧ (snapshotAt done h.number n).1 = .ok s ∧ Keeps n.config parent h s)
      ∧ m.config = n.config ∧ m.chain = n.chain
      ∧ m.snapshots.Holds (Snapshot.Built n.config) := by
  have hframe := n.verify_frame done h true
  rw [hverify] at hframe
  obtain ⟨hconfig, hchain, -⟩ := hframe
  have hok : (CommitteeConsensus.verifyHeader n.config n.chain n.now done h true n.snapshots).1
      = .ok () := congrArg Prod.fst hverify
  obtain ⟨parent, s, hcheck, hs, hseal⟩ := verifyHeader_eq_ok_iff.1 hok
  obtain ⟨hheld, hanswer⟩ := governingSnapshot_of_built n.chain done h.number hbuilt
  obtain ⟨-, _, -, -, -, -, -, hparent, -⟩ := checkHeader_eq_ok_iff.1 hcheck
  obtain ⟨hcandidate, -, -⟩ := findParent_eq_ok_iff.1 hparent
  have hlookup : (snapshotAt done h.number n).1 = .ok s := by
    rw [snapshotAt, ofLookup_apply, hs, mapError_ok]
  refine ⟨⟨parent, s, hcandidate, hlookup, keeps_of_checks hvalid (hanswer s hs) hcheck hseal⟩,
    hconfig, hchain, ?_⟩
  -- the lookup of its snapshot is all that verification leaves in the cache
  have hleft : m.snapshots = (governingSnapshot n.config n.chain done h.number n.snapshots).2 := by
    have hm : m = (n.verify done h true).2 := by rw [hverify]
    rw [hm, verify]
    dsimp only
    rw [record_snapshots, verifyHeader_of_snapshot hcheck (Prod.ext hs rfl)]
  rw [hleft]
  exact hheld

/-- Each header of an accepted batch keeps the pace of the committee that the node finds for it once
    the headers before it have been verified. -/
theorem keeps_of_verifyRest (hvalid : n.config.validate = .ok ())
    (hbuilt : n.snapshots.Holds (Snapshot.Built n.config))
    (hseals : ∀ i < (done ++ rest).length, seals.getD i true = true)
    (hok : (verifyRest aborted seals done false rest n).1 = rest.map fun _ => .ok ()) :
    ∃ run : List (Header × Snapshot), run.map Prod.fst = rest
      ∧ ∀ before h s after, run = before ++ (h, s) :: after →
        (snapshotAt (done ++ before.map Prod.fst) h.number
          (verifyRest aborted seals done false (before.map Prod.fst) n).2).1 = .ok s
        ∧ ∃ parent, parentCandidate? n.chain (done ++ before.map Prod.fst) h = some parent
          ∧ Keeps n.config parent h s := by
  induction rest generalizing done n with
  | nil =>
    refine ⟨[], rfl, ?_⟩
    intro before h s after hsplit
    simp at hsplit
  | cons g rest ih =>
    obtain ⟨m, hverify, hrest, hstate⟩ := verifyRest_cons_eq_ok hok
    rw [hseals done.length (by simp)] at hverify
    obtain ⟨⟨parent, t, hcandidate, ht, hkeeps⟩, hconfig, hchain, hheld⟩ :=
      keeps_of_verify hvalid hbuilt hverify
    rw [← hconfig] at hvalid hheld
    obtain ⟨run, hheaders, hrun⟩ := ih hvalid hheld
      (by rwa [List.append_assoc, List.singleton_append]) hrest
    refine ⟨(g, t) :: run, by rw [List.map_cons, hheaders], ?_⟩
    intro before h s after hsplit
    cases before with
    | nil =>
      obtain ⟨hfirst, -⟩ := List.cons.inj hsplit
      obtain ⟨rfl, rfl⟩ := Prod.mk.inj hfirst
      rw [List.map_nil, List.append_nil]
      exact ⟨ht, parent, hcandidate, hkeeps⟩
    | cons b before =>
      obtain ⟨rfl, hlater⟩ := List.cons.inj hsplit
      obtain ⟨hs, parent', hparent', hkeeps'⟩ := hrun before h s after hlater
      rw [hchain] at hparent'
      rw [hconfig] at hkeeps'
      rw [List.append_assoc, List.singleton_append] at hs hparent'
      rw [List.map_cons, hstate]
      exact ⟨hs, parent', hparent', hkeeps'⟩

/-! ## Headers -/

/-- A batch that is accepted with every seal hangs on a header `p` of the chain. Each of its headers
    is numbered after the one before, names it as parent and is no earlier; its author is in the
    committee that the node finds for it by then, and its difficulty is between one and the size of
    the committee. The time from `p` on is at least a period for each header and each point that
    its difficulty lacks of the size, as far as words reach. -/
theorem paced_of_verifyHeaders {first : Header} (hvalid : n.config.validate = .ok ())
    (hbuilt : n.snapshots.Holds (Snapshot.Built n.config))
    (hseals : ∀ i < (first :: rest).length, seals.getD i true = true)
    (hok : (verifyHeaders aborted seals (first :: rest) n).1
      = (first :: rest).map fun _ => .ok ()) :
    ∃ p run, n.chain.header? first.parentHash (first.number - 1) = some p
      ∧ run.map Prod.fst = first :: rest
      ∧ ∀ before h s after, run = before ++ (h, s) :: after →
        (snapshotAt (before.map Prod.fst) h.number
          (verifyHeaders aborted seals (before.map Prod.fst) n).2).1 = .ok s
        ∧ Keeps n.config (headOf p before) h s
        ∧ h.number.toNat = p.number.toNat + 1 + before.length
        ∧ min Word.max
            (p.time.toNat + n.config.period.toNat * periods (before ++ [(h, s)]))
          ≤ h.time.toNat := by
  obtain ⟨run, hheaders, hrun⟩ :=
    keeps_of_verifyRest hvalid hbuilt (by rwa [List.nil_append]) hok
  obtain ⟨⟨g, t⟩, later, rfl, hfirst, -⟩ := List.map_eq_cons_iff.1 hheaders
  dsimp only at hfirst
  subst hfirst
  obtain ⟨-, p, hp, -⟩ := hrun [] g t later rfl
  have hparents : ∀ before h s after, (g, t) :: later = before ++ (h, s) :: after →
      Keeps n.config (headOf p before) h s := by
    intro before h s after hsplit
    obtain ⟨-, parent, hparent, hkeeps⟩ := hrun before h s after hsplit
    rw [List.nil_append] at hparent
    cases before using List.reverseRecOn with
    | nil =>
      obtain ⟨hhead, -⟩ := List.cons.inj hsplit
      obtain ⟨rfl, rfl⟩ := Prod.mk.inj hhead
      obtain rfl : p = parent := Option.some.inj (hp.symm.trans hparent)
      exact hkeeps
    | append_singleton before b =>
      obtain ⟨b, u⟩ := b
      rw [headOf_append]
      obtain rfl : b = parent := by simpa [parentCandidate?] using hparent
      exact hkeeps
  refine ⟨p, (g, t) :: later, hp, hheaders, ?_⟩
  intro before h s after hsplit
  obtain ⟨hs, -⟩ := hrun before h s after hsplit
  obtain ⟨hnumber, htime⟩ := paced_of_keeps hparents hsplit
  exact ⟨hs, hparents before h s after hsplit, hnumber, htime⟩

end Node

/-! ## A batch out of turn -/

namespace Lone

/-- The only member puts another account into office beside it, at the end of the first epoch. -/
def handover : Header := child (genesis signer.address)
  { committee := { rank := [.zero 20, signer.address], proportion := [5000, 5000] }
    signature := [116, 205, 29, 90, 198, 230, 144, 20, 231, 68, 137, 153, 70, 29, 61, 77, 2, 73,
      146, 191, 221, 23, 82, 100, 58, 97, 38, 219, 130, 88, 142, 120, 108, 245, 29, 41, 217, 37,
      127, 87, 175, 113, 108, 201, 129, 254, 255, 197, 13, 226, 46, 242, 116, 234, 129, 49, 142, 82,
      79, 163, 43, 79, 13, 141, 0] }

/-- It seals the next block in the turn of the other account, one second after its period. -/
def outOfTurn : Header :=
  { child handover
      { signature := [153, 47, 241, 143, 104, 36, 73, 144, 27, 4, 53, 41, 254, 41, 16, 45, 51, 73,
          53, 144, 16, 71, 59, 86, 153, 12, 234, 58, 214, 193, 109, 157, 32, 71, 18, 69, 39, 65,
          155, 124, 90, 237, 135, 77, 95, 119, 168, 207, 1, 39, 103, 94, 100, 25, 34, 92, 128, 65,
          224, 7, 211, 207, 102, 96, 1] } with
    time := 3 }

/-- A node whose first epoch alone is governed by the genesis header. -/
def follower : Node :=
  { node signer.address with config := { epoch := 2, electionPeriod := 0 }, clock := 3 }

end Lone

namespace Node

/-- Both headers are accepted, three seconds after the genesis header: the committees that sealed
    them cannot be larger. -/
theorem paced_of_verifyHeaders_outOfTurn :
    Lone.follower.config.validate = .ok ()
      ∧ Lone.follower.snapshots.Holds (Snapshot.Built Lone.follower.config)
      ∧ (verifyHeaders (fun _ => false) [true, true] [Lone.handover, Lone.outOfTurn]
          Lone.follower).1 = [.ok (), .ok ()]
      ∧ ∃ s t, Keeps Lone.follower.config (Lone.genesis Lone.signer.address) Lone.handover s
        ∧ Keeps Lone.follower.config Lone.handover Lone.outOfTurn t ∧ s.size + t.size ≤ 3 := by
  have hvalid : Lone.follower.config.validate = .ok () :=
    toOption_eq_some_iff.1 (by decide +kernel)
  have hbuilt : Lone.follower.snapshots.Holds (Snapshot.Built Lone.follower.config) :=
    SnapshotCache.holds_ofStore_empty 128
  have hok : (verifyHeaders (fun _ => false) [true, true] [Lone.handover, Lone.outOfTurn]
      Lone.follower).1 = [.ok (), .ok ()] := by decide +kernel
  refine ⟨hvalid, hbuilt, hok, ?_⟩
  obtain ⟨p, run, hp, hheaders, hrun⟩ := paced_of_verifyHeaders hvalid hbuilt (by decide) hok
  have hgenesis : Lone.follower.chain.header? Lone.handover.parentHash (Lone.handover.number - 1)
      = some (Lone.genesis Lone.signer.address) :=
    Chain.header?_insert_self {} (Lone.genesis Lone.signer.address)
  obtain rfl : p = Lone.genesis Lone.signer.address := Option.some.inj (hp.symm.trans hgenesis)
  obtain ⟨⟨g, s⟩, later, rfl, hg, hlater⟩ := List.map_eq_cons_iff.1 hheaders
  obtain ⟨⟨h, t⟩, last, rfl, hh, hlast⟩ := List.map_eq_cons_iff.1 hlater
  obtain rfl := List.map_eq_nil_iff.1 hlast
  dsimp only at hg hh
  subst hg hh
  obtain ⟨-, hfirst, -⟩ := hrun [] Lone.handover s [(Lone.outOfTurn, t)] rfl
  obtain ⟨-, hsecond, -, htime⟩ := hrun [(Lone.handover, s)] Lone.outOfTurn t [] rfl
  refine ⟨s, t, hfirst, hsecond, ?_⟩
  have hperiods : periods ([(Lone.handover, s)] ++ [(Lone.outOfTurn, t)]) = s.size + t.size := by
    have hdifficulty : Lone.handover.difficulty.toNat = 1 ∧ Lone.outOfTurn.difficulty.toNat = 1 :=
      ⟨rfl, rfl⟩
    simp only [periods, List.cons_append, List.nil_append, List.map_cons, List.map_nil,
      List.sum_cons, List.sum_nil, hdifficulty]
    omega
  have hperiod : Lone.follower.config.period.toNat = 1 := rfl
  have hstart : (Lone.genesis Lone.signer.address).time.toNat = 0 := rfl
  have hend : Lone.outOfTurn.time.toNat = 3 := rfl
  have hmax : 3 < Word.max := by decide
  rw [hperiods, hperiod, hstart, hend] at htime
  omega

end Node

end CommitteeConsensus
