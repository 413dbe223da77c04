import Daisyway.Crypto.HashDomain

/-! # Protocol parameters, key derivation and the wire messages

The packed structs of `basics.rs` with their `as_bytes` views, and the key
derivation. `as_bytes` of a `repr(C, packed)` struct is its fields' bytes in
declaration order with no padding.
-/

set_option autoImplicit false

namespace Daisyway

inductive SetOskReason
  | fresh
  | stale
deriving DecidableEq, Repr

structure DaisywayProtocolParameters where
  psk : Key
  localPeerId : PeerId
  remotePeerId : PeerId
deriving DecidableEq

structure Etsi014Key where
  id : Uuid
  key : Key
deriving DecidableEq

structure WireGuardConnectionId where
  firstPeer : PeerId
  secondPeer : PeerId

def WireGuardConnectionId.new (selfPublicKey peerPublicKey : PeerId) : WireGuardConnectionId :=
  let sorted := sortPair selfPublicKey peerPublicKey
  ⟨sorted.1, sorted.2⟩

def WireGuardConnectionId.asBytes (c : WireGuardConnectionId) : List UInt8 :=
  c.firstPeer.toList ++ c.secondPeer.toList

structure KdfInput where
  psk : Key
  nonce : Nonce
  qkdKey : Key
  qkdKeyId : UuidBytes
  wireguardConnectionId : WireGuardConnectionId

/-- `KdfInput::new`: the QKD key id enters in `to_bytes_le` order. -/
def KdfInput.new (psk nonce : Key) (qkdKey : Etsi014Key)
    (wireguardConnectionId : WireGuardConnectionId) : KdfInput :=
  { psk, nonce, qkdKey := qkdKey.key, qkdKeyId := qkdKey.id.toBytesLe, wireguardConnectionId }

def KdfInput.asBytes (k : KdfInput) : List UInt8 :=
  k.psk.toList ++ k.nonce.toList ++ k.qkdKey.toList ++ k.qkdKeyId.toList ++
    k.wireguardConnectionId.asBytes

/-- The packed KDF input is 176 bytes: 32 + 32 + 32 + 16 + 64. -/
@[simp] theorem KdfInput.asBytes_length (k : KdfInput) : k.asBytes.length = 176 := by
  simp [KdfInput.asBytes, WireGuardConnectionId.asBytes]

def deriveDaisywayKey (shake : Xof) (params : DaisywayProtocolParameters) (nonce : Nonce)
    (key : Etsi014Key) : Key :=
  let connId := WireGuardConnectionId.new params.localPeerId params.remotePeerId
  let kdfInput := KdfInput.new params.psk nonce key connId
  ((ProtocolDomains.deriveKey shake).mix shake kdfInput.asBytes).intoKey

structure RekeyReq where
  qkdKeyId : UuidBytes
  nonce : Nonce

/-- `RekeyReq::new`; the nonce `rand::rng().random()` draws is passed in. -/
def RekeyReq.new (qkdKeyId : UuidBytes) (nonce : Nonce) : RekeyReq := ⟨qkdKeyId, nonce⟩

def RekeyReq.asBytes (r : RekeyReq) : List UInt8 := r.qkdKeyId.toList ++ r.nonce.toList

@[simp] theorem RekeyReq.asBytes_length (r : RekeyReq) : r.asBytes.length = 48 := by
  simp [RekeyReq.asBytes]

/-- Reading a `RekeyReq` out of its 48 bytes (`read_exact` into `as_mut_bytes`). -/
def RekeyReq.ofBytes (b : Bytes 48) : RekeyReq :=
  ⟨⟨b.toList.take 16, by simp⟩, ⟨b.toList.drop 16, by simp⟩⟩

structure RekeyAck where
  dummyData : UInt8
deriving DecidableEq

def rekeyAck : RekeyAck := ⟨1⟩

def RekeyAck.validate (a : RekeyAck) : Except String Unit :=
  if a = rekeyAck then .ok ()
  else .error ("Rekey acknowledgement is invalid: Expected RekeyAck \x7b dummy_data: 1 \x7d " ++
    "but received RekeyAck \x7b dummy_data: " ++ toString a.dummyData ++ " \x7d")

theorem RekeyAck.validate_ok_iff (a : RekeyAck) : a.validate = .ok () ↔ a = rekeyAck := by
  unfold RekeyAck.validate; split_ifs <;> simp [*]

/-! ## What the KDF input separates -/

theorem append_eq_append_iff_of_length {a c b d : List UInt8} (h : a.length = c.length) :
    a ++ b = c ++ d ↔ a = c ∧ b = d :=
  ⟨fun e => List.append_inj e h, fun ⟨hac, hbd⟩ => hac ▸ hbd ▸ rfl⟩

theorem connectionId_asBytes_eq_iff {a b c d : PeerId} :
    (WireGuardConnectionId.new a b).asBytes = (WireGuardConnectionId.new c d).asBytes ↔
      s(a, b) = s(c, d) := by
  rw [← sortPair_eq_iff, WireGuardConnectionId.asBytes, WireGuardConnectionId.asBytes,
    append_eq_append_iff_of_length (by simp), Prod.ext_iff]
  simp only [WireGuardConnectionId.new, Mathlib.Vector.toList_injective.eq_iff]

/-- The bytes `derive_daisyway_key` hashes are equal exactly when the PSKs, the nonces,
the QKD keys and their ids agree and the two peer ids agree as an unordered pair. -/
theorem kdfInput_asBytes_eq_iff (p p' : DaisywayProtocolParameters) (n n' : Nonce)
    (q q' : Etsi014Key) :
    (KdfInput.new p.psk n q (WireGuardConnectionId.new p.localPeerId p.remotePeerId)).asBytes =
        (KdfInput.new p'.psk n' q'
          (WireGuardConnectionId.new p'.localPeerId p'.remotePeerId)).asBytes ↔
      p.psk = p'.psk ∧ n = n' ∧ q.key = q'.key ∧ q.id = q'.id ∧
        s(p.localPeerId, p.remotePeerId) = s(p'.localPeerId, p'.remotePeerId) := by
  simp only [KdfInput.asBytes, KdfInput.new, List.append_assoc]
  repeat rw [append_eq_append_iff_of_length (by simp)]
  simp only [Mathlib.Vector.toList_injective.eq_iff, Uuid.toBytesLe_injective.eq_iff,
    connectionId_asBytes_eq_iff]

/-- Swapping the local and the remote peer id never changes the derived key. -/
theorem deriveDaisywayKey_swap (shake : Xof) (p : DaisywayProtocolParameters) (n : Nonce)
    (q : Etsi014Key) :
    deriveDaisywayKey shake { p with localPeerId := p.remotePeerId, remotePeerId := p.localPeerId }
      n q = deriveDaisywayKey shake p n q := by
  simp only [deriveDaisywayKey, WireGuardConnectionId.new, sortPair_comm p.remotePeerId]

/-- `derive_daisyway_key` absorbs into the derive-key domain one message of 176 bytes: the PSK,
the nonce, the QKD key, the key's id in `to_bytes_le` order, and the two peer ids in the order
`sortPair` gives them. -/
theorem deriveDaisywayKey_message (shake : Xof) (p : DaisywayProtocolParameters) (n : Nonce)
    (q : Etsi014Key) :
    let msg := p.psk.toList ++ n.toList ++ q.key.toList ++ q.id.toBytesLe.toList ++
      (sortPair p.localPeerId p.remotePeerId).1.toList ++
      (sortPair p.localPeerId p.remotePeerId).2.toList
    msg.length = 176 ∧
      deriveDaisywayKey shake p n q = ((ProtocolDomains.deriveKey shake).mix shake msg).intoKey :=
  ⟨by simp, by simp only [deriveDaisywayKey, KdfInput.new, KdfInput.asBytes,
    WireGuardConnectionId.new, WireGuardConnectionId.asBytes, List.append_assoc]⟩

end Daisyway
