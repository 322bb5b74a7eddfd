import CommitteeConsensus.Proofs.Chain.Commitment
import CommitteeConsensus.Proofs.Node.Authorship
import CommitteeConsensus.Proofs.Node.Publication

/-! # What a seal fixes

    A seal signs the hash of the header with its signature cleared and its extra-data written anew.
    So it fixes what the header says: two accepted headers with one seal hash and the same two
    scalars in their signatures agree in all fields but the extra-data, and in all that this says
    but the last byte of the signature.

    It does not fix how the extra-data is written. The hash of a header is made from the bytes that
    it carries, and the seal hash from those that a node would write for what they say. Anybody may
    put a blank into an accepted header, list the fields in another order or add members that
    nobody reads; with the length in front put right the header is accepted again, has the same
    seal and another hash (`fixed_up_to_spelling`). The last byte of the signature has two
    spellings as well, for it gives a parity.
-/

namespace CommitteeConsensus

/-! ## Recovery bytes -/

namespace Secp256k1

theorem parity?_of_recover? {digest : Hash} {signature : Signature} {a : Address}
    (h : recover? digest signature = some a) :
    (parity? (signature.toList.getD 64 0)).isSome := by
  obtain ⟨key, hkey, -⟩ := Option.map_eq_some_iff.1 h
  unfold recoverKey? at hkey
  obtain ⟨odd, hodd, -⟩ := Option.bind_eq_some_iff.1 hkey
  rw [hodd]
  rfl

/-- A signature is read as two scalars and a parity. -/
theorem recover?_congr {digest : Hash} {a b : Signature}
    (hscalars : a.toList.take 64 = b.toList.take 64)
    (hparity : parity? (a.toList.getD 64 0) = parity? (b.toList.getD 64 0)) :
    recover? digest a = recover? digest b := by
  have hfirst : a.toList.take 32 = b.toList.take 32 := by
    have htake := congrArg (List.take 32) hscalars
    rwa [List.take_take, List.take_take] at htake
  have hsecond : (a.toList.drop 32).take 32 = (b.toList.drop 32).take 32 := by
    have hdrop := congrArg (List.drop 32) hscalars
    rwa [List.drop_take, List.drop_take] at hdrop
  unfold recover? recoverKey?
  rw [hparity, hfirst, hsecond]

end Secp256k1

open Secp256k1 Json

/-- A signature is its two scalars and the recovery byte. -/
theorem signature_eq (signature : Signature) :
    signature.toList = signature.toList.take 64 ++ [signature.toList.getD 64 0] := by
  have hlength := signature.length_toList
  have hlast : signature.toList.drop 64 = [signature.toList.getD 64 0] := by
    rw [List.drop_eq_getElem_cons (by omega), List.drop_eq_nil_of_le (by omega),
      List.getD_eq_getElem?_getD, List.getElem?_eq_getElem (by omega), Option.getD_some]
  conv_lhs => rw [← List.take_append_drop 64 signature.toList, hlast]

/-- The same account has signed, whichever way its parity is spelled. -/
theorem recoverAuthor_congr {digest : Hash} {signature other : Signature}
    (hscalars : signature.toList.take 64 = other.toList.take 64)
    (hparity : parity? (signature.toList.getD 64 0) = parity? (other.toList.getD 64 0)) :
    recoverAuthor digest signature = recoverAuthor digest other := by
  unfold recoverAuthor
  rw [recover?_congr hscalars hparity]

theorem parity?_of_recoverAuthor {digest : Hash} {signature : Signature} {a : Address}
    (h : recoverAuthor digest signature = .ok a) :
    (parity? (signature.toList.getD 64 0)).isSome := by
  unfold recoverAuthor at h
  split at h
  · next hrecover => exact parity?_of_recover? hrecover
  · simp at h

/-! ## Headers with one seal -/

namespace Header

/-- What a sealed header carries: extra-data whose signature is two scalars and a recovery byte. -/
structure Sealed (h : Header) (x : ExtraData) (scalars : List UInt8) (v : UInt8) : Prop where
  extra : ExtraData.decode h.extra = .ok x
  signature : x.signature = scalars ++ [v]
  length : scalars.length = 64
  parity : (parity? v).isSome

/-- The headers have one seal hash and the same scalars in their signatures. -/
structure SameSeal (h g : Header) : Prop where
  sealHash : h.sealHash = g.sealHash
  scalars : ∃ x y, ExtraData.decode h.extra = .ok x ∧ ExtraData.decode g.extra = .ok y
    ∧ x.signature.take 64 = y.signature.take 64

/-- `g` is `h` written in another way. It agrees in all fields but the extra-data, which reads as
    the same, the parity in its signature being spelled in either way. -/
structure Respells (h g : Header) : Prop where
  fields : g = { h with extra := g.extra }
  reading : ∃ x scalars v w, h.Sealed x scalars v
    ∧ g.Sealed { x with signature := scalars ++ [w] } scalars w ∧ parity? w = parity? v

variable {h g : Header} {x y : ExtraData} {scalars scalars' : List UInt8} {v w : UInt8}

theorem SameSeal.scalars_eq (hsame : h.SameSeal g) (hh : h.Sealed x scalars v)
    (hg : g.Sealed y scalars' w) : scalars' = scalars := by
  obtain ⟨x', y', hx, hy, hboth⟩ := hsame.scalars
  obtain rfl : x' = x := Except.ok.inj (hx.symm.trans hh.extra)
  obtain rfl : y' = y := Except.ok.inj (hy.symm.trans hg.extra)
  rw [hh.signature, hg.signature, ← hh.length, List.take_left, hh.length, ← hg.length,
    List.take_left] at hboth
  exact hboth.symm

/-- A header that agrees in all fields but the extra-data has the same hash exactly if it carries
    the same bytes. -/
theorem hash_eq_iff (hfields : g = { h with extra := g.extra })
    (hhash : HashesIdentify fun f => f = h ∨ f = g) : h.hash = g.hash ↔ h.extra = g.extra := by
  constructor
  · intro heq
    exact congrArg Header.extra (hhash h g (.inl rfl) (.inr rfl) heq)
  · intro heq
    rw [hfields, ← heq]

/-- The seal covers what the header says, and not how it is written. -/
theorem Respells.sealHash_eq (hsame : h.Respells g) : g.sealHash = h.sealHash := by
  obtain ⟨x, scalars, v, w, hh, hg, -⟩ := hsame.reading
  exact sealHash_congr hh.extra hg.extra hsame.fields rfl

theorem Respells.sameSeal (hsame : h.Respells g) : h.SameSeal g := by
  obtain ⟨x, scalars, v, w, hh, hg, -⟩ := hsame.reading
  refine ⟨hsame.sealHash_eq.symm, x, _, hh.extra, hg.extra, ?_⟩
  rw [hh.signature, ← hh.length, List.take_left, List.take_left]

/-- The header has the author that it had. -/
theorem Respells.author_eq {signer : Address} (hsame : h.Respells g)
    (hauthor : h.author = .ok signer) : g.author = h.author := by
  obtain ⟨y, signature, digest, hy, hsignature, hdigest, -⟩ := exists_signature_of_author hauthor
  obtain ⟨x, scalars, v, w, hh, hg, hparity⟩ := hsame.reading
  obtain rfl : y = x := Except.ok.inj (hy.symm.trans hh.extra)
  obtain ⟨again, hagain⟩ : ∃ again : Signature, again.toList = scalars ++ [w] :=
    ⟨⟨_, by simp [hh.length]⟩, rfl⟩
  have hread : signature.toList = scalars ++ [v] := hsignature.symm.trans hh.signature
  -- both are recovered from one digest, with the same scalars and the same parity
  rw [author_of_signature hg.extra hagain.symm (hsame.sealHash_eq.trans hdigest),
    author_of_signature hy hsignature hdigest]
  apply recoverAuthor_congr
  · rw [hagain, hread, ← hh.length, List.take_left, List.take_left]
  · rw [hagain, hread, ← hh.length]
    simpa using hparity

/-- Every text of an object that lists what a sealed header says is another way to write it: the
    fields in any order, those that hold their default left out, members of other names between
    them, and blanks wherever they may stand. -/
theorem respells_of_lists {members : List (List UInt8 × Json)} {payload : List UInt8}
    (hsealed : h.Sealed x scalars v) (hlists : Lists x.fields members)
    (hsound : (Json.object members).Sound) (htext : (Json.object members).IsText payload)
    (hlength : payload.length < 0x100000000) :
    h.Respells { h with extra := ExtraData.frame payload } where
  fields := rfl
  reading := by
    have hsaid : { x with signature := scalars ++ [v] } = x := by rw [← hsealed.signature]
    refine ⟨x, scalars, v, v, hsealed, ?_, rfl⟩
    rw [hsaid]
    exact {
      extra := ExtraData.decode_frame_of_isText hsound htext hlength
        (ExtraData.ofJson?_of_lists hlists)
      signature := hsealed.signature
      length := hsealed.length
      parity := hsealed.parity }

end Header

/-! ## Accepted headers -/

namespace Node

variable {a b : Node} {h g : Header}

theorem exists_author_of_accepted (haccepted : (verifyHeader h true a).1 = .ok ()) :
    ∃ signer, h.author = .ok signer := by
  rw [verifyHeader_fst, mapError_eq_ok_iff] at haccepted
  obtain ⟨parent, s, -, -, hchecked⟩ := verifyHeader_eq_ok_iff.1 haccepted
  obtain ⟨signer, hauthor, -⟩ := checkSeal_eq_ok_iff.1 hchecked
  exact ⟨signer, hauthor⟩

theorem exists_sealed_of_accepted (haccepted : (verifyHeader h true a).1 = .ok ()) :
    ∃ x scalars v, h.Sealed x scalars v := by
  obtain ⟨signer, hauthor⟩ := exists_author_of_accepted haccepted
  obtain ⟨x, signature, digest, hx, hsignature, -, hrecover⟩ := exists_signature_of_author hauthor
  refine ⟨x, signature.toList.take 64, signature.toList.getD 64 0, hx, ?_, by simp,
    parity?_of_recoverAuthor hrecover⟩
  rw [hsignature]
  exact signature_eq signature

/-- An accepted header is accepted in whatever way it is written. -/
theorem verifyHeader_of_respells (haccepted : (verifyHeader h true a).1 = .ok ())
    (hsame : h.Respells g) : (verifyHeader g true a).1 = .ok () := by
  obtain ⟨signer, hauthor⟩ := exists_author_of_accepted haccepted
  have hauthor' := hsame.author_eq hauthor
  obtain ⟨x, scalars, v, w, hh, hg, -⟩ := hsame.reading
  have hfields := hsame.fields
  rw [Header.mk.injEq] at hfields
  obtain ⟨hparent, huncle, -, -, -, -, hdifficulty, hnumber, -, -, htime, -⟩ := hfields
  -- the checks look at fields of the header and at what its extra-data reads as, never at the bytes
  rw [verifyHeader_fst, mapError_eq_ok_iff] at haccepted ⊢
  obtain ⟨parent, s, hcheck, hs, hchecked⟩ := verifyHeader_eq_ok_iff.1 haccepted
  have hcheck' : checkHeader a.config a.chain a.now [] g = .ok parent :=
    SameButCoinbase.checkHeader_eq_ok
      ⟨hnumber, hparent, huncle, hdifficulty, htime, _, hg.extra⟩ hh.extra hcheck
  have hs' : (governingSnapshot a.config a.chain [] g.number a.snapshots).1 = .ok s := by
    rw [hnumber]
    exact hs
  have hchecked' : checkSeal a.config s parent g = .ok () := by
    apply checkSeal_eq_ok_iff.2
    rw [hauthor', hnumber, hdifficulty, htime]
    exact checkSeal_eq_ok_iff.1 hchecked
  exact verifyHeader_eq_ok_iff.2 ⟨parent, s, hcheck', hs', hchecked'⟩

/-- Two accepted headers, of whatever nodes, with one seal hash and the same scalars in their
    signatures say the same, but for the recovery byte. -/
theorem said_fixed_by_seal (hh : (verifyHeader h true a).1 = .ok ())
    (hg : (verifyHeader g true b).1 = .ok ()) (hsame : h.SameSeal g)
    (hhash : HashesIdentify fun f => h.unsealed = .ok f ∨ g.unsealed = .ok f) :
    g = { h with extra := g.extra }
      ∧ ∃ x scalars v w, h.Sealed x scalars v
        ∧ g.Sealed { x with signature := scalars ++ [w] } scalars w := by
  obtain ⟨x, scalars, v, hx⟩ := exists_sealed_of_accepted hh
  obtain ⟨y, scalars', w, hy⟩ := exists_sealed_of_accepted hg
  obtain rfl := hsame.scalars_eq hx hy
  obtain ⟨signer, hauthor⟩ := exists_author_of_accepted hh
  obtain ⟨-, -, digest, -, -, hdigest, -⟩ := exists_signature_of_author hauthor
  obtain ⟨hfields, hread⟩ := Header.eq_of_sealHash hx.extra hy.extra hdigest
    (hsame.sealHash.symm.trans hdigest) hhash
  rw [hy.signature] at hread
  exact ⟨hfields, x, scalars', v, w, hx, hread ▸ hy⟩

/-- A seal fixes what an accepted header says, and not how it is written. A header that anybody
    accepts, with the same seal hash and the same scalars, agrees in all fields but the extra-data
    and in all that this says but the recovery byte; it has the same hash exactly if its extra-data
    is the same bytes. But every other way to write the header is accepted where the header is, and
    has its seal; and every text of an object that lists what the extra-data says, put behind its
    length, is such a way. -/
theorem fixed_up_to_spelling (hh : (verifyHeader h true a).1 = .ok ()) :
    (∀ (b : Node) (g : Header), (verifyHeader g true b).1 = .ok () → h.SameSeal g →
        (HashesIdentify fun f => f = h ∨ f = g ∨ h.unsealed = .ok f ∨ g.unsealed = .ok f) →
        g = { h with extra := g.extra } ∧ (h.hash = g.hash ↔ h.extra = g.extra)
          ∧ ∃ x scalars v w, h.Sealed x scalars v
            ∧ g.Sealed { x with signature := scalars ++ [w] } scalars w)
      ∧ (∀ g, h.Respells g → (verifyHeader g true a).1 = .ok () ∧ h.SameSeal g)
      ∧ ∃ x, ExtraData.decode h.extra = .ok x ∧ ∀ members payload, Lists x.fields members →
        (Json.object members).Sound → (Json.object members).IsText payload →
        payload.length < 0x100000000 → h.Respells { h with extra := ExtraData.frame payload } := by
  refine ⟨?_, ?_, ?_⟩
  · intro b g hg hsame hhash
    obtain ⟨hfields, hsaid⟩ :=
      said_fixed_by_seal hh hg hsame (hhash.mono fun f hf => .inr (.inr hf))
    refine ⟨hfields, Header.hash_eq_iff hfields (hhash.mono fun f hf => ?_), hsaid⟩
    exact hf.imp_right .inl
  · intro g hsame
    exact ⟨verifyHeader_of_respells hh hsame, hsame.sameSeal⟩
  · obtain ⟨x, scalars, v, hsealed⟩ := exists_sealed_of_accepted hh
    exact ⟨x, hsealed.extra, fun _ _ => Header.respells_of_lists hsealed⟩

end Node

/-! ## A header with a blank -/

/-- The payload with a blank after its opening brace. -/
def ExtraData.spaced (x : ExtraData) : List UInt8 := ascii "\x7b " ++ x.payload.drop 1

theorem ExtraData.isText_spaced (x : ExtraData) : x.toJson.IsText x.spaced :=
  .token .openObject (.blank (by decide) (spells_flatMap _))

namespace Lone

/-- The end of the first epoch, with a blank in it. -/
def epochEndSpaced : Header := { epochEnd with extra := ExtraData.frame doubled.spaced }

/-- What the member signed at the end of the first epoch. -/
def epochEndUnsealed : Header := child (genesis signer.address) doubled.unsigned

theorem decode_epochEnd : ExtraData.decode epochEnd.extra = .ok doubled :=
  ExtraData.decode_frame (by decide +kernel) doubled.parse?_payload

theorem decode_epochEndSpaced : ExtraData.decode epochEndSpaced.extra = .ok doubled :=
  ExtraData.decode_frame_of_isText doubled.sound_toJson doubled.isText_spaced (by decide +kernel)
    doubled.ofJson?_toJson

/-- With the blank and without it the header is signed as one. -/
theorem unsealed_epochEnd : epochEnd.unsealed = .ok epochEndUnsealed
    ∧ epochEndSpaced.unsealed = .ok epochEndUnsealed := by
  have hencode : doubled.unsigned.encode = .ok (ExtraData.frame doubled.unsigned.payload) :=
    ExtraData.encode_eq_ok_iff.2 ⟨by decide +kernel, rfl⟩
  exact ⟨(Header.unsealed_eq_ok_iff decode_epochEnd).2 ⟨_, hencode, rfl⟩,
    (Header.unsealed_eq_ok_iff decode_epochEndSpaced).2 ⟨_, hencode, rfl⟩⟩

theorem hashesIdentify_epochEnd :
    HashesIdentify (· ∈ [epochEnd, epochEndSpaced, epochEndUnsealed]) :=
  hashesIdentify_of_nodup (by decide +kernel)

end Lone

namespace Node

/-- Two accepted headers with one seal hash and the same scalars, and with two hashes: one has a
    blank that the other has not. -/
theorem fixed_up_to_spelling_spaced :
    (verifyHeader Lone.epochEnd true Lone.successor).1 = .ok ()
      ∧ (verifyHeader Lone.epochEndSpaced true Lone.successor).1 = .ok ()
      ∧ Lone.epochEnd.SameSeal Lone.epochEndSpaced
      ∧ Lone.epochEnd.hash ≠ Lone.epochEndSpaced.hash := by
  obtain ⟨hfixed, hwritten, x, hx, htexts⟩ := fixed_up_to_spelling verifyHeader_doubled
  obtain rfl : x = Lone.doubled := Except.ok.inj (hx.symm.trans Lone.decode_epochEnd)
  obtain ⟨members, hobject, hlists⟩ := Lone.doubled.lists_toJson
  have hrespells : Lone.epochEnd.Respells Lone.epochEndSpaced :=
    htexts members Lone.doubled.spaced hlists (hobject ▸ Lone.doubled.sound_toJson)
      (hobject ▸ Lone.doubled.isText_spaced) (by decide +kernel)
  obtain ⟨haccepted, hsame⟩ := hwritten _ hrespells
  have hhash : HashesIdentify fun f => f = Lone.epochEnd ∨ f = Lone.epochEndSpaced
      ∨ Lone.epochEnd.unsealed = .ok f ∨ Lone.epochEndSpaced.unsealed = .ok f := by
    apply Lone.hashesIdentify_epochEnd.mono
    rintro f (rfl | rfl | hf | hf)
    · simp
    · simp
    · rw [Lone.unsealed_epochEnd.1] at hf
      simp [← Except.ok.inj hf]
    · rw [Lone.unsealed_epochEnd.2] at hf
      simp [← Except.ok.inj hf]
  obtain ⟨-, hiff, -⟩ := hfixed Lone.successor _ haccepted hsame hhash
  refine ⟨verifyHeader_doubled, haccepted, hsame, ?_⟩
  intro heq
  exact absurd (hiff.1 heq) (by decide +kernel)

end Node

end CommitteeConsensus
