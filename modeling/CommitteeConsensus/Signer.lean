import CommitteeConsensus.Error
import CommitteeConsensus.Secp256k1.Signature

/-! # Signers

    A signer holds a secret scalar and signs digests for the one account that belongs to it.
    `recoverAuthor` names the account behind a signature.
-/

namespace CommitteeConsensus

structure Signer where
  secret : Nat
  address : Address
deriving DecidableEq

namespace Signer

/-- Reads a secret of 24 to 32 bytes, most significant first, as a scalar. -/
def ofSecret (secret : List UInt8) : Except Error Signer :=
  let k := ofBigEndian secret
  let key := if 24 ≤ secret.length ∧ secret.length ≤ 32 ∧ Secp256k1.isScalar k
    then (Secp256k1.generator.scale k).toPoint? else none
  match key with
  | some q => .ok ⟨k, q.address⟩
  | none => .error (.signFailed "invalid secret key: signature error")

def sign (signer : Signer) (hash : Hash) : Except Error Signature :=
  match Secp256k1.sign? signer.secret hash with
  | some signature => .ok signature
  | none => .error (.signFailed "signature error")

/-- Signs on behalf of `address`; a reason is given where that is not the signer's account. -/
def signFor (signer : Signer) (address : Address) (hash : Hash) : Except String Signature :=
  if address = signer.address then (signer.sign hash).mapError Error.message
  else .error "signer address mismatch"

/-- What may be shown of a signer: its account, not its secret. -/
def description (signer : Signer) : String :=
  "LocalSigner \x7b address: \"" ++ signer.address.text ++ "\", .. \x7d"

end Signer

/-- The account whose signature of `hash` this is. -/
def recoverAuthor (hash : Hash) (signature : Signature) : Except Error Address :=
  match Secp256k1.recover? hash signature with
  | some address => .ok address
  | none => .error .invalidSignature

end CommitteeConsensus
