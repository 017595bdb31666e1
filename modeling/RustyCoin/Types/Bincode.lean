import RustyCoin.Lib.Codec
import RustyCoin.Types.Transaction

/-!
# Stored outputs

How the databases of rusty-consensus store outpoints, unspent outputs and hashes.
`bincode` is a third-party crate, so its format is a parameter of the model: all
that is known of it is that it reads back what it has written.
-/

namespace RustyCoin

structure Bincode where
  outPoint : Codec UInt8 OutPoint
  /-- An output, the height of its block, and whether a coinbase has created it. -/
  utxo : Codec UInt8 (TxOutput × UInt64 × Bool)
  /-- The same, with a height of 32 bits. -/
  stateUtxo : Codec UInt8 (TxOutput × UInt32 × Bool)
  hash : Codec UInt8 Hash

namespace Bincode

def u32 : StreamCodec UInt8 UInt32 :=
  (StreamCodec.symbols 4).through (fun n => ⟨leBytes 4 n.toNat, length_leBytes 4 _⟩)
    (fun v => UInt32.ofNat (leValue v.toList)) fun n => by
      have hlt : n.toNat < 256 ^ 4 := n.toNat_lt
      change UInt32.ofNat (leValue (leBytes 4 n.toNat)) = n
      rw [leValue_leBytes, Nat.mod_eq_of_lt hlt, UInt32.ofNat_toNat]

def u64 : StreamCodec UInt8 UInt64 :=
  (StreamCodec.symbols 8).through (fun n => ⟨leBytes 8 n.toNat, length_leBytes 8 _⟩)
    (fun v => UInt64.ofNat (leValue v.toList)) fun n => by
      have hlt : n.toNat < 256 ^ 8 := n.toNat_lt
      change UInt64.ofNat (leValue (leBytes 8 n.toNat)) = n
      rw [leValue_leBytes, Nat.mod_eq_of_lt hlt, UInt64.ofNat_toNat]

def flag : StreamCodec UInt8 Bool where
  write b := [if b then 1 else 0]
  read
    | 0 :: rest => .ok (false, rest)
    | 1 :: rest => .ok (true, rest)
    | _ => .error "expected 0 or 1"
  read_write b rest := by cases b <;> rfl

/-- A one before each byte and a zero after the last one, for lists of any length. -/
def writeBytes : Bytes → Bytes
  | [] => [0]
  | b :: bytes => 1 :: b :: writeBytes bytes

def readBytes : Bytes → Except String (Bytes × Bytes)
  | 0 :: rest => .ok ([], rest)
  | 1 :: b :: rest => do
    let (bytes, rest) ← readBytes rest
    return (b :: bytes, rest)
  | _ => .error "unexpected end of file"

@[simp] theorem readBytes_writeBytes (bytes rest : Bytes) :
    readBytes (writeBytes bytes ++ rest) = .ok (bytes, rest) := by
  induction bytes with
  | nil => rfl
  | cons b bytes ih =>
    change (readBytes (writeBytes bytes ++ rest) >>= _) = _
    rw [ih]
    rfl

def bytes : StreamCodec UInt8 Bytes := ⟨writeBytes, readBytes, readBytes_writeBytes⟩

def txOutput : StreamCodec UInt8 TxOutput :=
  (u64.pair (bytes.pair (flag.option bytes))).through
    (fun output => (output.value, output.scriptPubkey, output.memo))
    (fun (value, scriptPubkey, memo) => ⟨value, scriptPubkey, memo⟩) fun _ => rfl

/-- A format with which the model can be evaluated. -/
def plain : Bincode where
  outPoint := (((StreamCodec.symbols 32).pair u32).through
    (fun outpoint => (outpoint.txid, outpoint.vout)) (fun (txid, vout) => ⟨txid, vout⟩)
      fun _ => rfl).toCodec
  utxo := (txOutput.pair (u64.pair flag)).toCodec
  stateUtxo := (txOutput.pair (u32.pair flag)).toCodec
  hash := (StreamCodec.symbols 32).toCodec

end Bincode

end RustyCoin
