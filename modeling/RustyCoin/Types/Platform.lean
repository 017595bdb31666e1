import RustyCoin.Types.Transaction

/-!
# Third-party functions

The hash functions, the signature scheme and the binary serialization that the
node takes from other crates. They are parameters of the model: a theorem that
needs a property of one of them names it as a hypothesis.
-/

namespace RustyCoin

structure Platform where
  sha256 : Bytes → Hash
  ripemd160 : Bytes → List.Vector UInt8 20
  sha1 : Bytes → List.Vector UInt8 20
  blake3 : Bytes → Hash
  /-- `bincode::serialize` of a transaction, which cannot fail on these types. -/
  serializeTransaction : Transaction → Bytes
  serializeBlock : Block → Bytes
  serializeHeader : BlockHeader → Bytes
  serializeProposal : GovernanceProposal → Bytes
  serializeVote : GovernanceVote → Bytes
  /-- `bincode::deserialize`, with the text of its error. -/
  deserializeBlock : Bytes → Except String Block
  deserializeNonParticipationProof : Bytes → Except String MasternodeNonParticipationProof
  deserializeMaliciousProof : Bytes → Except String MasternodeMaliciousProof
  /-- Does `PublicKey::from_bytes` accept these bytes? -/
  publicKeyFromBytes : Bytes → Bool
  /-- Does `Signature::from_bytes` accept these bytes? -/
  signatureFromBytes : Bytes → Bool
  /-- `public_key.verify(message, signature).is_ok()`, on accepted encodings. -/
  verify (publicKey message signature : Bytes) : Bool

/-- A platform on which the model can be evaluated: every digest is zero, nothing
can be deserialized, and no signature is accepted. -/
def Platform.blank : Platform where
  sha256 _ := .replicate 32 0
  ripemd160 _ := .replicate 20 0
  sha1 _ := .replicate 20 0
  blake3 _ := .replicate 32 0
  serializeTransaction _ := []
  serializeBlock _ := []
  serializeHeader _ := []
  serializeProposal _ := []
  serializeVote _ := []
  deserializeBlock _ := .error ""
  deserializeNonParticipationProof _ := .error ""
  deserializeMaliciousProof _ := .error ""
  publicKeyFromBytes _ := false
  signatureFromBytes _ := false
  verify _ _ _ := false

/-- A platform on which every key is a key and every signature verifies. -/
def Platform.lenient : Platform :=
  { Platform.blank with
    publicKeyFromBytes := fun _ => true
    signatureFromBytes := fun _ => true
    verify := fun _ _ _ => true }

variable (env : Platform)

def Block.hash (block : Block) : Hash :=
  env.blake3 (env.serializeBlock block)

def BlockHeader.hash (header : BlockHeader) : Hash :=
  env.blake3 (env.serializeHeader header)

variable (proposal : GovernanceProposal)

/-- What a proposal commits to: all of it but its id and its signature. -/
def GovernanceProposal.canonicalBytes :
    Bytes :=
  env.serializeProposal
    { proposal with proposalId := .replicate 32 0, proposerSignature := .replicate 64 0 }

def GovernanceProposal.hash : Hash :=
  env.blake3 (proposal.canonicalBytes env)

/-- What a vote commits to: all of it but its signature. -/
def GovernanceVote.canonicalBytes (vote : GovernanceVote) : Bytes :=
  env.serializeVote { vote with voterSignature := .replicate 64 0 }

/-- The transaction id: the hash of the serialized transaction. -/
def Transaction.txid (tx : Transaction) : Hash :=
  env.blake3 (env.serializeTransaction tx)

end RustyCoin
