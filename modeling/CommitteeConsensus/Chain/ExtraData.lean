import CommitteeConsensus.Chain.Header
import CommitteeConsensus.Committee.Record
import CommitteeConsensus.Signer

/-! # Extra-data

    What a header carries for consensus: the seal signature, the synchronisation checkpoint and,
    at the end of an epoch, the elected committee. It is written as JSON behind a length of four
    bytes, most significant first; every field may be absent.

    A seal signs the hash of the header with the signature cleared (`sealHash`), so writing the
    signature does not change what it signs.
-/

namespace CommitteeConsensus

structure ExtraData where
  committee : CommitteeRecord := {}
  signature : List UInt8 := []
  lastSyncNumber : UInt64 := 0
  lastSyncHash : Hash := .zero 32
deriving DecidableEq

namespace ExtraData

/-! ## Payload -/

def fieldNames : List String :=
  ["committee", "signature", "last_syn_block_num", "last_syn_block_hash"]

def toJson (x : ExtraData) : Json := .ofFields [
  ("committee", x.committee.toJson),
  ("signature", .ofByteList x.signature),
  ("last_syn_block_num", .ofWord x.lastSyncNumber),
  ("last_syn_block_hash", .ofBytes x.lastSyncHash)]

def ofJson? (j : Json) : Option ExtraData := do
  match ← j.fields? fieldNames with
  | [committee, signature, number, hash] =>
    return {
      committee := ← Json.orDefault? CommitteeRecord.ofJson? {} committee
      signature := ← Json.orDefault? (Json.list? Json.byte?) [] signature
      lastSyncNumber := ← Json.orDefault? Json.word? 0 number
      lastSyncHash := ← Json.orDefault? Json.bytes? (.zero 32) hash }
  | _ => none

def payload (x : ExtraData) : List UInt8 := x.toJson.render

/-! ## Framing -/

/-- A payload behind its length. -/
def frame (payload : List UInt8) : List UInt8 := bigEndian 4 payload.length ++ payload

def encode (x : ExtraData) : Except Error (List UInt8) :=
  let payload := x.payload
  if payload.length < 0x100000000 then .ok (frame payload)
  else .error (.invalidExtra "payload exceeds u32 length")

def decode (bytes : List UInt8) : Except Error ExtraData :=
  if bytes.isEmpty then .error .emptyExtra
  else if bytes.length < 4 then
    .error (.invalidExtra (toString bytes.length ++ " bytes is shorter than the length prefix"))
  else
    let length := ofBigEndian (bytes.take 4)
    let payload := bytes.drop 4
    if length ≠ payload.length then
      .error (.invalidExtra ("length prefix " ++ toString length ++ " but payload is "
        ++ toString payload.length ++ " bytes"))
    else
      match (Json.parse? payload).bind ofJson? with
      | some x => .ok x
      | none => .error (.invalidExtra "<json>")

/-- Reads extra-data, an empty field being fresh extra-data. -/
def decodeOrDefault (bytes : List UInt8) : Except Error ExtraData :=
  if bytes.isEmpty then .ok {} else decode bytes

/-! ## Seal -/

/-- The seal signature, when one is present and of the right length. -/
def sealSignature (x : ExtraData) : Except Error Signature :=
  if x.signature.isEmpty then .error .emptyExtra
  else
    match Bytes.ofList? x.signature with
    | some signature => .ok signature
    | none => .error .invalidSignature

def unsigned (x : ExtraData) : ExtraData := { x with signature := [] }

end ExtraData

namespace Header

def withExtra (h : Header) (x : ExtraData) : Except Error Header := do
  return { h with extra := ← x.encode }

/-- The hash that a seal signs: that of the header with its signature cleared. -/
def sealHash (h : Header) : Except Error Hash := do
  let x ← ExtraData.decode h.extra
  return (← h.withExtra x.unsigned).hash

/-- The account that sealed the header. -/
def author (h : Header) : Except Error Address := do
  let x ← ExtraData.decode h.extra
  let signature ← x.sealSignature
  let digest ← h.sealHash
  recoverAuthor digest signature

end Header

end CommitteeConsensus
