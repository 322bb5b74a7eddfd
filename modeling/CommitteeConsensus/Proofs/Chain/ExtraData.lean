import CommitteeConsensus.Chain.ExtraData
import CommitteeConsensus.Proofs.Json.Accepted
import CommitteeConsensus.Proofs.Json.Extent
import CommitteeConsensus.Proofs.Json.Listing
import CommitteeConsensus.Proofs.Outcome

/-! # Extra-data reads back

    `decode_encode`: what was written into a header is what is read from it. The length in front
    says where it ends, so of two strings that can be read neither continues the other
    (`eq_of_prefix_of_decode`), and what was written reads as nothing else when it is cut short or
    continued (`encode_framed`).

    The signature is part of what is written but not of what is signed: `sealHash_withExtra` says
    that the hash a seal signs is the hash of the header with the unsigned extra-data, whatever
    signature the header carries.

    Whatever bytes are read, the bindings in them can be counted by words
    (`decode_accountBinding`), because the length of a payload fits its four bytes.
-/

namespace CommitteeConsensus

open Json

/-! ## Payload -/

/-- The names of the fields, on both levels, are read as they are written. -/
theorem plainName_of_mem {name : String}
    (h : name ∈ ExtraData.fieldNames ++ CommitteeRecord.fieldNames) : PlainName name := by
  have hall : ∀ name ∈ ExtraData.fieldNames ++ CommitteeRecord.fieldNames,
      textBody? (ascii name ++ [0x22]) = some (ascii name, [])
        ∧ keyText? (ascii name) = some (ascii name) := by
    decide +kernel
  obtain ⟨hbody, hkeyText⟩ := hall name h
  exact ⟨hbody, hkeyText⟩

namespace CommitteeRecord

theorem sound_toJson (r : CommitteeRecord) : r.toJson.Sound := by
  apply sound_ofFields
  simp only [List.mem_cons, List.not_mem_nil, or_false, forall_eq_or_imp, forall_eq]
  have hname {name : String} (h : name ∈ fieldNames) : (Token.text (ascii name)).Sound :=
    (plainName_of_mem (List.mem_append_right ExtraData.fieldNames h)).body
  exact ⟨⟨hname (by decide), sound_ofList sound_ofBytes _⟩,
    ⟨hname (by decide), sound_ofList sound_ofWord _⟩,
    ⟨hname (by decide), sound_ofList sound_ofWord _⟩,
    ⟨hname (by decide), sound_ofList sound_ofWord _⟩,
    ⟨hname (by decide), sound_ofTable sound_ofBytes (sound_ofList sound_ofBytes) _⟩⟩

/-- The fields of the record, as an object may list them. -/
def fields (r : CommitteeRecord) : List Field := [
  ⟨"rank", (· = .ofList .ofBytes r.rank), r.rank = []⟩,
  ⟨"proportion", (· = .ofList .ofWord r.proportion), r.proportion = []⟩,
  ⟨"committee_stake", (· = .ofList .ofWord r.committeeStake), r.committeeStake = []⟩,
  ⟨"sentinel_contribution", (· = .ofList .ofWord r.sentinelContribution),
    r.sentinelContribution = []⟩,
  ⟨"account_binding", (· = .ofTable .ofBytes (.ofList .ofBytes) r.accountBinding),
    r.accountBinding = .empty⟩]

theorem nodup_names (r : CommitteeRecord) : (r.fields.map fun f => ascii f.name).Nodup := by
  show (fieldNames.map ascii).Nodup
  decide

/-- A record is read from every object that lists its fields. -/
theorem ofJson?_of_lists {r : CommitteeRecord} {members : List (List UInt8 × Json)}
    (h : Lists r.fields members) : ofJson? (.object members) = some r := by
  obtain ⟨found, hfound, hholds⟩ := fields?_of_lists h r.nodup_names
  simp only [fields, List.forall₂_cons_left_iff, List.forall₂_nil_left_iff] at hholds
  obtain ⟨rank, _, hrank, ⟨proportion, _, hproportion, ⟨stake, _, hstake, ⟨contribution, _,
    hcontribution, ⟨binding, _, hbinding, rfl, rfl⟩, rfl⟩, rfl⟩, rfl⟩, rfl⟩ := hholds
  have hrank' := orDefault?_of_found hrank
    (by rintro _ rfl; exact list?_ofList bytes?_ofBytes _) id
  have hproportion' := orDefault?_of_found hproportion
    (by rintro _ rfl; exact list?_ofList word?_ofWord _) id
  have hstake' := orDefault?_of_found hstake
    (by rintro _ rfl; exact list?_ofList word?_ofWord _) id
  have hcontribution' := orDefault?_of_found hcontribution
    (by rintro _ rfl; exact list?_ofList word?_ofWord _) id
  have hbinding' := orDefault?_of_found hbinding
    (by rintro _ rfl; exact table?_ofTable bytes?_ofBytes (list?_ofList bytes?_ofBytes) _) id
  have hfields : (Json.object members).fields? fieldNames
      = some [rank, proportion, stake, contribution, binding] := hfound
  simp [ofJson?, hfields, hrank', hproportion', hstake', hcontribution', hbinding']

theorem lists_toJson (r : CommitteeRecord) :
    ∃ members, r.toJson = .object members ∧ Lists r.fields members := by
  refine ⟨_, rfl, ListsInOrder.lists ?_⟩
  have hkey {name : String} (h : name ∈ fieldNames) : keyText? (ascii name) = some (ascii name) :=
    (plainName_of_mem (List.mem_append_right ExtraData.fieldNames h)).keyText
  exact .listed (hkey (by decide)) rfl (.listed (hkey (by decide)) rfl
    (.listed (hkey (by decide)) rfl (.listed (hkey (by decide)) rfl
      (.listed (hkey (by decide)) rfl .nil))))

theorem ofJson?_toJson (r : CommitteeRecord) : ofJson? r.toJson = some r := by
  obtain ⟨members, hobject, hlists⟩ := r.lists_toJson
  rw [hobject]
  exact ofJson?_of_lists hlists

end CommitteeRecord

namespace ExtraData

theorem sound_toJson (x : ExtraData) : x.toJson.Sound := by
  apply sound_ofFields
  simp only [List.mem_cons, List.not_mem_nil, or_false, forall_eq_or_imp, forall_eq]
  have hname {name : String} (h : name ∈ fieldNames) : (Token.text (ascii name)).Sound :=
    (plainName_of_mem (List.mem_append_left CommitteeRecord.fieldNames h)).body
  exact ⟨⟨hname (by decide), x.committee.sound_toJson⟩, ⟨hname (by decide), sound_ofByteList _⟩,
    ⟨hname (by decide), sound_ofWord _⟩, ⟨hname (by decide), sound_ofBytes _⟩⟩

/-- The fields of extra-data, as an object may list them; its committee is an object again. -/
def fields (x : ExtraData) : List Field := [
  ⟨"committee", fun j => ∃ members, j = .object members ∧ Lists x.committee.fields members,
    x.committee = {}⟩,
  ⟨"signature", (· = .ofByteList x.signature), x.signature = []⟩,
  ⟨"last_syn_block_num", (· = .ofWord x.lastSyncNumber), x.lastSyncNumber = 0⟩,
  ⟨"last_syn_block_hash", (· = .ofBytes x.lastSyncHash), x.lastSyncHash = .zero 32⟩]

theorem nodup_names (x : ExtraData) : (x.fields.map fun f => ascii f.name).Nodup := by
  show (fieldNames.map ascii).Nodup
  decide

/-- Extra-data is read from every object that lists its fields. -/
theorem ofJson?_of_lists {x : ExtraData} {members : List (List UInt8 × Json)}
    (h : Lists x.fields members) : ofJson? (.object members) = some x := by
  obtain ⟨found, hfound, hholds⟩ := fields?_of_lists h x.nodup_names
  simp only [fields, List.forall₂_cons_left_iff, List.forall₂_nil_left_iff] at hholds
  obtain ⟨committee, _, hcommittee, ⟨signature, _, hsignature, ⟨number, _, hnumber, ⟨hash, _, hhash,
    rfl, rfl⟩, rfl⟩, rfl⟩, rfl⟩ := hholds
  have hcommittee' := orDefault?_of_found hcommittee
    (by rintro _ ⟨members, rfl, hlists⟩; exact CommitteeRecord.ofJson?_of_lists hlists) id
  have hsignature' := orDefault?_of_found hsignature
    (by rintro _ rfl; exact byteList?_ofByteList _) id
  have hnumber' := orDefault?_of_found hnumber (by rintro _ rfl; exact word?_ofWord _) id
  have hhash' := orDefault?_of_found hhash (by rintro _ rfl; exact bytes?_ofBytes _) id
  have hfields : (Json.object members).fields? fieldNames
      = some [committee, signature, number, hash] := hfound
  simp [ofJson?, hfields, hcommittee', hsignature', hnumber', hhash']

theorem lists_toJson (x : ExtraData) :
    ∃ members, x.toJson = .object members ∧ Lists x.fields members := by
  refine ⟨_, rfl, ListsInOrder.lists ?_⟩
  have hkey {name : String} (h : name ∈ fieldNames) : keyText? (ascii name) = some (ascii name) :=
    (plainName_of_mem (List.mem_append_left CommitteeRecord.fieldNames h)).keyText
  exact .listed (hkey (by decide)) x.committee.lists_toJson (.listed (hkey (by decide)) rfl
    (.listed (hkey (by decide)) rfl (.listed (hkey (by decide)) rfl .nil)))

theorem ofJson?_toJson (x : ExtraData) : ofJson? x.toJson = some x := by
  obtain ⟨members, hobject, hlists⟩ := x.lists_toJson
  rw [hobject]
  exact ofJson?_of_lists hlists

theorem parse?_payload (x : ExtraData) : (parse? x.payload).bind ofJson? = some x := by
  rw [payload, parse?_render x.sound_toJson]
  exact x.ofJson?_toJson

/-! ## Framing -/

/-- Bytes are read as what a payload says if they are its length, in four bytes, and the payload. -/
theorem decode_eq_ok_iff {bytes : List UInt8} {x : ExtraData} :
    decode bytes = .ok x ↔ 4 ≤ bytes.length ∧ ofBigEndian (bytes.take 4) = (bytes.drop 4).length
      ∧ (parse? (bytes.drop 4)).bind ofJson? = some x := by
  unfold decode
  split
  · next hempty =>
    rw [List.isEmpty_iff] at hempty
    simp [hempty]
  · split
    · next hshort =>
      refine iff_of_false nofun ?_
      intro h
      obtain ⟨hfour, -⟩ := h
      omega
    · next hfour =>
      dsimp only
      split
      · next hlength =>
        refine iff_of_false nofun ?_
        intro h
        obtain ⟨-, hsame, -⟩ := h
        exact hlength hsame
      · next hlength =>
        have hframed : 4 ≤ bytes.length ∧ ofBigEndian (bytes.take 4) = (bytes.drop 4).length :=
          ⟨by omega, Decidable.not_not.1 hlength⟩
        cases (parse? (bytes.drop 4)).bind ofJson? with
        | none => simp
        | some y => simp [hframed]

/-- A frame is decoded by reading its payload, if its length fits the prefix. -/
theorem decode_frame {payload : List UInt8} (h : payload.length < 0x100000000) {x : ExtraData}
    (hx : (parse? payload).bind ofJson? = some x) : decode (frame payload) = .ok x := by
  have hprefix : (frame payload).take 4 = bigEndian 4 payload.length := by
    rw [frame, List.take_left' (length_bigEndian 4 _)]
  have hrest : (frame payload).drop 4 = payload := by
    rw [frame, List.drop_left' (length_bigEndian 4 _)]
  rw [decode_eq_ok_iff, hprefix, hrest]
  refine ⟨?_, ofBigEndian_bigEndian h, hx⟩
  rw [frame, List.length_append, length_bigEndian]
  exact Nat.le_add_right 4 _

/-- Extra-data is read from every text of a value that says it, whatever blanks stand in the text. -/
theorem decode_frame_of_isText {payload : List UInt8} {j : Json} {x : ExtraData} (hsound : j.Sound)
    (htext : j.IsText payload) (hlength : payload.length < 0x100000000) (hx : ofJson? j = some x) :
    decode (frame payload) = .ok x := by
  apply decode_frame hlength
  rw [parse?_of_isText hsound htext, Option.bind_some]
  exact hx

/-- Extra-data is read from every text of an object that lists its fields. They may come in any
    order, on both levels; those that hold their default may be left out; members of other names
    may stand between them, whatever their values; and blanks may stand anywhere. -/
theorem decode_listed {x : ExtraData} {members : List (List UInt8 × Json)} {payload : List UInt8}
    (hlists : Lists x.fields members) (hsound : (Json.object members).Sound)
    (htext : (Json.object members).IsText payload) (hlength : payload.length < 0x100000000) :
    decode (frame payload) = .ok x :=
  decode_frame_of_isText hsound htext hlength (ofJson?_of_lists hlists)

/-- A committee of one and a checkpoint; all else is the default. -/
def checkpoint : ExtraData where
  committee := { rank := [.zero 20], proportion := [10000] }
  lastSyncNumber := 3

/-- Members that name no field where they stand, though they would on the other level. -/
def checkpointSignature : List UInt8 × Json := (ascii "signature", .text (ascii "\\u00e9\\\""))

def checkpointRank : List UInt8 × Json :=
  (ascii "rank", .array [.null, .object [(ascii "note", .number (ascii "-0.5e3"))], .array []])

/-- The committee of `checkpoint`, its fields the other way round. -/
def checkpointCommittee : List (List UInt8 × Json) := [
  checkpointSignature,
  (ascii "proportion", .ofList .ofWord [10000]),
  (ascii "rank", .ofList .ofBytes [(.zero 20 : Address)])]

def checkpointMembers : List (List UInt8 × Json) := [
  checkpointRank,
  (ascii "last_syn_block_num", .ofWord 3),
  (ascii "committee", .object checkpointCommittee)]

def checkpointText : List UInt8 :=
  ascii " \x7b \"rank\":[null, \x7b\"note\" :-0.5e3\x7d , []],\n  \"last_syn_block_num\":3\n ,"
    ++ ascii "\"committee\":\x7b\"signature\":\"\\u00e9\\\"\",\"proportion\":[ 10000 ],\t"
    ++ ascii "\"rank\":[[0,0,0,0,0,0,0,0,0,0,0,0,0,0,0,0,0,0,0,0]]\x7d\x7d\r\n"

theorem lists_checkpointCommittee : Lists checkpoint.committee.fields checkpointCommittee := by
  have hkey {name : String} (h : name ∈ fieldNames ++ CommitteeRecord.fieldNames) :
      keyText? (ascii name) = some (ascii name) := (plainName_of_mem h).keyText
  have hknown : ListsInOrder checkpoint.committee.fields [
      (ascii "rank", .ofList .ofBytes [(.zero 20 : Address)]),
      (ascii "proportion", .ofList .ofWord [10000])] :=
    .listed (hkey (by decide)) rfl (.listed (hkey (by decide)) rfl
      (.omitted rfl (.omitted rfl (.omitted rfl .nil))))
  refine ⟨_, [checkpointSignature], hknown, ?_, (List.reverse_perm checkpointCommittee).symm⟩
  simp only [List.mem_singleton, forall_eq]
  exact ⟨ascii "signature", hkey (by decide), by decide⟩

theorem lists_checkpointMembers : Lists checkpoint.fields checkpointMembers := by
  have hkey {name : String} (h : name ∈ fieldNames ++ CommitteeRecord.fieldNames) :
      keyText? (ascii name) = some (ascii name) := (plainName_of_mem h).keyText
  have hknown : ListsInOrder checkpoint.fields [
      (ascii "committee", .object checkpointCommittee),
      (ascii "last_syn_block_num", .ofWord 3)] :=
    .listed (hkey (by decide)) ⟨_, rfl, lists_checkpointCommittee⟩ (.omitted rfl
      (.listed (hkey (by decide)) rfl (.omitted rfl .nil)))
  refine ⟨_, [checkpointRank], hknown, ?_, (List.reverse_perm checkpointMembers).symm⟩
  simp only [List.mem_singleton, forall_eq]
  exact ⟨ascii "rank", hkey (by decide), by decide⟩

/-- Only what differs from the default is said, and more that nobody asked for. -/
theorem decode_listed_checkpoint : Lists checkpoint.fields checkpointMembers
    ∧ (Json.object checkpointMembers).Sound
    ∧ (Json.object checkpointMembers).IsText checkpointText
    ∧ checkpointText.length < 0x100000000
    ∧ decode (frame checkpointText) = .ok checkpoint := by
  obtain ⟨hscan, hlength⟩ : scan checkpointText = some (Json.object checkpointMembers).tokens
      ∧ checkpointText.length < 0x100000000 := by
    decide +kernel
  obtain ⟨htext, hsound⟩ := spells_of_scan hscan
  exact ⟨lists_checkpointMembers, hsound, htext, hlength,
    decode_listed lists_checkpointMembers hsound htext hlength⟩

/-- The length of what can be read fits the prefix. -/
theorem length_payload_lt {bytes : List UInt8} {x : ExtraData} (h : decode bytes = .ok x) :
    (bytes.drop 4).length < 0x100000000 := by
  obtain ⟨-, hlength, -⟩ := decode_eq_ok_iff.1 h
  rw [← hlength]
  calc ofBigEndian (bytes.take 4)
      < Nat.pow 256 (bytes.take 4).length := ofBigEndian_lt _
    _ ≤ Nat.pow 256 4 := Nat.pow_le_pow_right (by decide) (List.length_take_le 4 bytes)

/-- Of strings that can be read none continues another. -/
theorem eq_of_prefix_of_decode {bytes longer : List UInt8} {x y : ExtraData}
    (hx : decode bytes = .ok x) (hy : decode longer = .ok y) (h : bytes <+: longer) :
    bytes = longer := by
  obtain ⟨hfour, hlength, -⟩ := decode_eq_ok_iff.1 hx
  obtain ⟨-, hlength', -⟩ := decode_eq_ok_iff.1 hy
  apply h.eq_of_length
  -- both begin with the same four bytes, and so with the same length
  obtain ⟨rest, rfl⟩ := h
  rw [List.take_append_of_le_length hfour, hlength, List.length_drop, List.length_drop] at hlength'
  rw [List.length_append] at hlength' ⊢
  omega

theorem encode_eq_ok_iff {x : ExtraData} {bytes : List UInt8} :
    x.encode = .ok bytes ↔ x.payload.length < 0x100000000 ∧ bytes = frame x.payload := by
  simp only [encode]
  split
  · next hlength => simp [hlength, eq_comm]
  · next hlength => simp [hlength]

theorem decode_encode {x : ExtraData} {bytes : List UInt8} (h : x.encode = .ok bytes) :
    decode bytes = .ok x := by
  obtain ⟨hlength, rfl⟩ := encode_eq_ok_iff.1 h
  exact decode_frame hlength x.parse?_payload

/-- Extra-data whose payload fits the prefix can be written and is read back. What was written is
    read as nothing when it is cut short, and as nothing when more bytes follow it. -/
theorem encode_framed {x : ExtraData} (hlength : x.payload.length < 0x100000000) :
    ∃ bytes, x.encode = .ok bytes ∧ decode bytes = .ok x
      ∧ ∀ other, other ≠ bytes → other <+: bytes ∨ bytes <+: other →
        ∃ e, decode other = .error e := by
  have hencode : x.encode = .ok (frame x.payload) := encode_eq_ok_iff.2 ⟨hlength, rfl⟩
  have hdecode : decode (frame x.payload) = .ok x := decode_encode hencode
  refine ⟨frame x.payload, hencode, hdecode, ?_⟩
  intro other hne hcompared
  cases hother : decode other with
  | error e => exact ⟨e, rfl⟩
  | ok y =>
    rcases hcompared with hshorter | hlonger
    · exact absurd (eq_of_prefix_of_decode hother hdecode hshorter) hne
    · exact absurd (eq_of_prefix_of_decode hdecode hother hlonger).symm hne

/-- A committee of two, one of which has accounts bound to it, with a seal and a checkpoint. -/
def sealedPair : ExtraData where
  committee := {
    rank := [.ofNat 20 1, .ofNat 20 4]
    proportion := [6000, 4000]
    committeeStake := [60, 40]
    sentinelContribution := [7, 0]
    accountBinding := .ofList [(.ofNat 20 1, [.ofNat 20 2, .ofNat 20 3])] }
  signature := List.replicate 65 9
  lastSyncNumber := 12
  lastSyncHash := .ofNat 32 5

/-- Neither may the last byte be missing, nor a blank follow. -/
theorem encode_framed_sealedPair : sealedPair.payload.length < 0x100000000
    ∧ ∃ bytes, sealedPair.encode = .ok bytes ∧ decode bytes = .ok sealedPair
      ∧ (∃ e, decode bytes.dropLast = .error e) ∧ ∃ e, decode (bytes ++ [0x20]) = .error e := by
  have hlength : sealedPair.payload.length < 0x100000000 := by decide +kernel
  obtain ⟨bytes, hencode, hdecode, hother⟩ := encode_framed hlength
  have hfour : 4 ≤ bytes.length := (decode_eq_ok_iff.1 hdecode).1
  have hshorter : bytes.dropLast ≠ bytes := by
    intro h
    have hcut := congrArg List.length h
    rw [List.length_dropLast] at hcut
    omega
  have hlonger : bytes ++ [0x20] ≠ bytes := by simp
  exact ⟨hlength, bytes, hencode, hdecode, hother _ hshorter (.inl bytes.dropLast_prefix),
    hother _ hlonger (.inr (List.prefix_append bytes _))⟩

/-- What can be decoded is not empty, so the default plays no part in it. -/
theorem decodeOrDefault_of_decode {bytes : List UInt8} {x : ExtraData}
    (h : decode bytes = .ok x) : decodeOrDefault bytes = .ok x := by
  by_cases hempty : bytes.isEmpty
  · simp [decode, hempty] at h
  · rw [decodeOrDefault, if_neg hempty, h]

end ExtraData

/-! ## Extent -/

/-- The bindings read from a value have no more entries than the value has parts. -/
theorem CommitteeRecord.ofJson?_accountBinding {j : Json} {r : CommitteeRecord}
    (h : ofJson? j = some r) :
    r.accountBinding.size ≤ j.weight ∧ ∀ e ∈ r.accountBinding.entries, e.2.length ≤ j.weight := by
  simp only [ofJson?, Option.bind_eq_bind, Option.bind_eq_some_iff] at h
  obtain ⟨fields, hfields, h⟩ := h
  split at h
  · next rank proportion stake contribution binding =>
    simp only [Option.bind_eq_some_iff, Option.pure_def, Option.some.injEq] at h
    obtain ⟨_, -, _, -, _, -, _, -, table, htable, rfl⟩ := h
    rcases orDefault?_eq_some htable with rfl | ⟨v, rfl, hread⟩
    · simp [Table.empty, Table.size]
    · have hv : v.weight ≤ j.weight := fields?_weight_le hfields (by simp)
      refine ⟨Nat.le_trans (table?_size_le hread) hv, ?_⟩
      intro e he
      obtain ⟨part, hpart, hlist⟩ := table?_mem hread he
      exact Nat.le_trans (list?_length_le hlist) (Nat.le_trans hpart hv)
  · simp at h

namespace ExtraData

theorem ofJson?_accountBinding {j : Json} {x : ExtraData} (h : ofJson? j = some x) :
    x.committee.accountBinding.size ≤ j.weight
      ∧ ∀ e ∈ x.committee.accountBinding.entries, e.2.length ≤ j.weight := by
  simp only [ofJson?, Option.bind_eq_bind, Option.bind_eq_some_iff] at h
  obtain ⟨fields, hfields, h⟩ := h
  split at h
  · next committee signature number hash =>
    simp only [Option.bind_eq_some_iff, Option.pure_def, Option.some.injEq] at h
    obtain ⟨r, hr, _, -, _, -, _, -, rfl⟩ := h
    rcases orDefault?_eq_some hr with rfl | ⟨v, rfl, hread⟩
    · simp [Table.empty, Table.size]
    · have hv : v.weight ≤ j.weight := fields?_weight_le hfields (by simp)
      obtain ⟨hsize, hlists⟩ := CommitteeRecord.ofJson?_accountBinding hread
      exact ⟨Nat.le_trans hsize hv, fun e he => Nat.le_trans (hlists e he) hv⟩
  · simp at h

theorem decode_accountBinding {bytes : List UInt8} {x : ExtraData} (h : decode bytes = .ok x) :
    x.committee.accountBinding.size < Word.bound
      ∧ ∀ e ∈ x.committee.accountBinding.entries, e.2.length < Word.bound := by
  obtain ⟨-, -, hread⟩ := decode_eq_ok_iff.1 h
  obtain ⟨j, hj, hx⟩ := Option.bind_eq_some_iff.1 hread
  have hweight := parse?_weight_le hj
  obtain ⟨hsize, hlists⟩ := ofJson?_accountBinding hx
  have hbound : (bytes.drop 4).length < Word.bound := Nat.lt_trans (length_payload_lt h) (by decide)
  refine ⟨by omega, ?_⟩
  intro e he
  have := hlists e he
  omega

end ExtraData

/-! ## Seal -/

namespace Header

theorem withExtra_eq_ok_iff {h h' : Header} {x : ExtraData} :
    h.withExtra x = .ok h' ↔ ∃ bytes, x.encode = .ok bytes ∧ h' = { h with extra := bytes } := by
  simp only [withExtra, bind_eq_ok_iff, pure_eq_ok, Except.ok.injEq, eq_comm (a := h')]

theorem decode_withExtra {h h' : Header} {x : ExtraData} (hx : h.withExtra x = .ok h') :
    ExtraData.decode h'.extra = .ok x := by
  obtain ⟨bytes, hbytes, rfl⟩ := withExtra_eq_ok_iff.1 hx
  exact ExtraData.decode_encode hbytes

/-- Of extra-data written twice the last one stays. -/
theorem withExtra_withExtra {h h' : Header} {x : ExtraData} (hx : h.withExtra x = .ok h')
    (y : ExtraData) : h'.withExtra y = h.withExtra y := by
  obtain ⟨bytes, -, rfl⟩ := withExtra_eq_ok_iff.1 hx
  rfl

/-- The header that a seal signs: with its signature cleared. -/
def unsealed (h : Header) : Except Error Header := do
  let x ← ExtraData.decode h.extra
  h.withExtra x.unsigned

theorem unsealed_eq_ok_iff {h f : Header} {x : ExtraData} (hx : ExtraData.decode h.extra = .ok x) :
    h.unsealed = .ok f ↔ ∃ bytes, x.unsigned.encode = .ok bytes ∧ f = { h with extra := bytes } := by
  rw [unsealed, hx, ok_bind, withExtra_eq_ok_iff]

theorem sealHash_eq_ok_iff {h : Header} {digest : Hash} :
    h.sealHash = .ok digest ↔ ∃ f, h.unsealed = .ok f ∧ f.hash = digest := by
  unfold sealHash unsealed
  cases ExtraData.decode h.extra with
  | error e => simp
  | ok x => simp only [ok_bind, bind_eq_ok_iff, pure_eq_ok, Except.ok.injEq]

theorem sealHash_withExtra {h h' : Header} {x : ExtraData} (hx : h.withExtra x = .ok h') :
    h'.sealHash = (do return (← h.withExtra x.unsigned).hash) := by
  rw [sealHash, decode_withExtra hx, ok_bind, withExtra_withExtra hx]

end Header

end CommitteeConsensus
