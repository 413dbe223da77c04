import Daisyway.Crypto.Basics

/-! # The rekey protocol of one connection

`DaisywayServerProtocol::event_loop` and `DaisywayClientProtocol::event_loop`,
joined by one ordered byte stream in each direction. The server fetches a QKD
key, writes a 48-byte `RekeyReq` holding the key id and a fresh nonce, reads the
1-byte `RekeyAck`, derives the OSK and hands it to its OSK handler; the client
reads the request, fetches the key of that id, writes the acknowledgement,
derives the OSK and hands it to its handler.

A run is a sequence of actions, each the completion of one await point of one
of the two loops, in any interleaving. The id `fetch_any_key` returns and the
nonce `RekeyReq::new` draws are arguments of the server's action. The QKD
device is a function from key ids to key material, so that `fetch_specific_key`
answers with the key `fetch_any_key` issued for the same id. `write_all` appends
a whole message; `read_exact` takes a whole message once its bytes are there
and blocks until then. A loop that returns an error takes no further step:
its `Err` clears the party's `alive` flag and leaves its phase as it was.
-/

set_option autoImplicit false

namespace Daisyway.Rekey

/-- The await point `DaisywayServerProtocol::event_loop` is at. -/
inductive ServerPhase
  /-- `fetch_any_key`, then `write_all` of the request. -/
  | fetching
  /-- `read_exact` of the acknowledgement of the request for `key` and `nonce`. -/
  | awaitingAck (key : Etsi014Key) (nonce : Nonce)
  /-- `set_fresh_osk`. -/
  | delivering (osk : Key)

/-- The await point `DaisywayClientProtocol::event_loop` is at. -/
inductive ClientPhase
  /-- `read_exact` of a request. -/
  | awaitingReq
  /-- `fetch_specific_key`, then `write_all` of the acknowledgement. -/
  | fetching (id : Uuid) (nonce : Nonce)
  /-- `set_fresh_osk`. -/
  | delivering (osk : Key)

/-- Both loops, the bytes in flight each way, and the keys each side has passed to
`set_fresh_osk`. -/
structure Duplex where
  server : ServerPhase
  client : ClientPhase
  toClient : List UInt8
  toServer : List UInt8
  serverOsks : List Key
  clientOsks : List Key
  serverAlive : Bool
  clientAlive : Bool

def Duplex.init : Duplex := ⟨.fetching, .awaitingReq, [], [], [], [], true, true⟩

inductive Action
  /-- `fetch_any_key` answers with `id`; `RekeyReq::new` draws `nonce`; the request is written. -/
  | serverNegotiate (id : Uuid) (nonce : Nonce)
  | serverReadAck
  /-- `set_fresh_osk`, which returns `Err` when `ok` is false. -/
  | serverSetFreshOsk (ok : Bool)
  /-- An `Err` of `fetch_any_key`, `write_all` or `read_exact`. -/
  | serverFails
  | clientReadReq
  /-- `fetch_specific_key` answers; the acknowledgement is written. -/
  | clientFetchKey
  | clientSetFreshOsk (ok : Bool)
  /-- An `Err` of `read_exact`, `fetch_specific_key` or `write_all`. -/
  | clientFails

/-- The 48 bytes `negotiate_key` writes: `RekeyReq::new(key.id.as_bytes().to_owned())`. -/
def rekeyReqBytes (key : Etsi014Key) (nonce : Nonce) : List UInt8 :=
  (RekeyReq.new key.id.asBytes nonce).asBytes

section

variable (shake : Xof) (qkd : Uuid → Key) (serverParams clientParams : DaisywayProtocolParameters)

/-- One await point of one loop completing; `none` where the action is not enabled. -/
def step (d : Duplex) : Action → Option Duplex
  | .serverNegotiate id nonce =>
    match d.serverAlive, d.server with
    | true, .fetching =>
      let key : Etsi014Key := ⟨id, qkd id⟩
      some { d with server := .awaitingAck key nonce, toClient := d.toClient ++ rekeyReqBytes key nonce }
    | _, _ => none
  | .serverReadAck =>
    match d.serverAlive, d.server, d.toServer with
    | true, .awaitingAck key nonce, a :: rest =>
      match (RekeyAck.mk a).validate with
      | .ok () =>
        some { d with server := .delivering (deriveDaisywayKey shake serverParams nonce key),
                      toServer := rest }
      | .error _ => some { d with toServer := rest, serverAlive := false }
    | _, _, _ => none
  | .serverSetFreshOsk ok =>
    match d.serverAlive, d.server with
    | true, .delivering osk =>
      some { d with server := .fetching, serverOsks := d.serverOsks ++ [osk], serverAlive := ok }
    | _, _ => none
  | .serverFails =>
    match d.serverAlive, d.server with
    | true, .fetching => some { d with serverAlive := false }
    | true, .awaitingAck _ _ => some { d with serverAlive := false }
    | _, _ => none
  | .clientReadReq =>
    match d.clientAlive, d.client with
    | true, .awaitingReq =>
      if h : 48 ≤ d.toClient.length then
        let req := RekeyReq.ofBytes ⟨d.toClient.take 48, List.length_take_of_le h⟩
        some { d with client := .fetching (Uuid.fromBytes req.qkdKeyId) req.nonce,
                      toClient := d.toClient.drop 48 }
      else none
    | _, _ => none
  | .clientFetchKey =>
    match d.clientAlive, d.client with
    | true, .fetching id nonce =>
      some { d with client := .delivering (deriveDaisywayKey shake clientParams nonce ⟨id, qkd id⟩),
                    toServer := d.toServer ++ [rekeyAck.dummyData] }
    | _, _ => none
  | .clientSetFreshOsk ok =>
    match d.clientAlive, d.client with
    | true, .delivering osk =>
      some { d with client := .awaitingReq, clientOsks := d.clientOsks ++ [osk], clientAlive := ok }
    | _, _ => none
  | .clientFails =>
    match d.clientAlive, d.client with
    | true, .awaitingReq => some { d with clientAlive := false }
    | true, .fetching _ _ => some { d with clientAlive := false }
    | _, _ => none

/-- The actions one after another, from `d`; `none` if one of them is not enabled. -/
def run : Duplex → List Action → Option Duplex
  | d, [] => some d
  | d, a :: as => (step shake qkd serverParams clientParams d a).bind fun d' => run d' as

end

/-- The key ids and nonces of the requests the server wrote along a run. -/
def negotiated : List Action → List (Uuid × Nonce)
  | [] => []
  | .serverNegotiate id nonce :: as => (id, nonce) :: negotiated as
  | _ :: as => negotiated as

/-! ## What each action does

One inversion lemma per action: when it is enabled, and the state it leads to. -/

section

variable {shake : Xof} {qkd : Uuid → Key} {serverParams clientParams : DaisywayProtocolParameters}
  {d d' : Duplex}

theorem step_serverNegotiate {u : Uuid} {n : Nonce}
    (h : step shake qkd serverParams clientParams d (.serverNegotiate u n) = some d') :
    d.serverAlive = true ∧ d.server = .fetching ∧
      d' = { d with server := .awaitingAck ⟨u, qkd u⟩ n,
                    toClient := d.toClient ++ rekeyReqBytes ⟨u, qkd u⟩ n } := by
  simp only [step] at h
  split at h
  · next ha hs => exact ⟨ha, hs, (Option.some.inj h).symm⟩
  · cases h

theorem step_serverReadAck
    (h : step shake qkd serverParams clientParams d .serverReadAck = some d') :
    d.serverAlive = true ∧ ∃ key nonce a rest, d.server = .awaitingAck key nonce ∧
      d.toServer = a :: rest ∧
      d' = if a = rekeyAck.dummyData then
          { d with server := .delivering (deriveDaisywayKey shake serverParams nonce key), toServer := rest }
        else { d with toServer := rest, serverAlive := false } := by
  simp only [step] at h
  split at h
  · next key nonce a rest ha hs ht =>
    refine ⟨ha, key, nonce, a, rest, hs, ht, ?_⟩
    split at h <;> rename_i hv
    · rw [if_pos (congrArg RekeyAck.dummyData ((RekeyAck.validate_ok_iff _).mp hv))]
      exact (Option.some.inj h).symm
    · have : a ≠ rekeyAck.dummyData := fun ha' => by
        rw [ha'] at hv; cases hv
      rw [if_neg this]; exact (Option.some.inj h).symm
  · cases h

theorem step_serverSetFreshOsk {ok : Bool}
    (h : step shake qkd serverParams clientParams d (.serverSetFreshOsk ok) = some d') :
    d.serverAlive = true ∧ ∃ osk, d.server = .delivering osk ∧
      d' = { d with server := .fetching, serverOsks := d.serverOsks ++ [osk], serverAlive := ok } := by
  simp only [step] at h
  split at h
  · next osk ha hs => exact ⟨ha, osk, hs, (Option.some.inj h).symm⟩
  · cases h

theorem step_serverFails (h : step shake qkd serverParams clientParams d .serverFails = some d') :
    d' = { d with serverAlive := false } := by
  simp only [step] at h
  split at h <;> first | exact (Option.some.inj h).symm | cases h

theorem step_clientReadReq (h : step shake qkd serverParams clientParams d .clientReadReq = some d') :
    d.clientAlive = true ∧ d.client = .awaitingReq ∧ ∃ hl : 48 ≤ d.toClient.length,
      d' = { d with
        client := .fetching (Uuid.fromBytes (RekeyReq.ofBytes ⟨d.toClient.take 48, List.length_take_of_le hl⟩).qkdKeyId)
          (RekeyReq.ofBytes ⟨d.toClient.take 48, List.length_take_of_le hl⟩).nonce,
        toClient := d.toClient.drop 48 } := by
  simp only [step] at h
  split at h
  · next ha hc =>
    split at h
    · next hl => exact ⟨ha, hc, hl, (Option.some.inj h).symm⟩
    · cases h
  · cases h

theorem step_clientFetchKey (h : step shake qkd serverParams clientParams d .clientFetchKey = some d') :
    d.clientAlive = true ∧ ∃ id nonce, d.client = .fetching id nonce ∧
      d' = { d with client := .delivering (deriveDaisywayKey shake clientParams nonce ⟨id, qkd id⟩),
                    toServer := d.toServer ++ [rekeyAck.dummyData] } := by
  simp only [step] at h
  split at h
  · next id nonce ha hc => exact ⟨ha, id, nonce, hc, (Option.some.inj h).symm⟩
  · cases h

theorem step_clientSetFreshOsk {ok : Bool}
    (h : step shake qkd serverParams clientParams d (.clientSetFreshOsk ok) = some d') :
    d.clientAlive = true ∧ ∃ osk, d.client = .delivering osk ∧
      d' = { d with client := .awaitingReq, clientOsks := d.clientOsks ++ [osk], clientAlive := ok } := by
  simp only [step] at h
  split at h
  · next osk ha hc => exact ⟨ha, osk, hc, (Option.some.inj h).symm⟩
  · cases h

theorem step_clientFails (h : step shake qkd serverParams clientParams d .clientFails = some d') :
    d' = { d with clientAlive := false } := by
  simp only [step] at h
  split at h <;> first | exact (Option.some.inj h).symm | cases h

/-! ## A bad acknowledgement -/

theorem step_of_serverDead {a : Action} (hd : d.serverAlive = false)
    (h : step shake qkd serverParams clientParams d a = some d') :
    d'.serverOsks = d.serverOsks ∧ d'.serverAlive = false := by
  cases a
  case clientReadReq => obtain ⟨-, -, -, rfl⟩ := step_clientReadReq h; exact ⟨rfl, hd⟩
  case clientFetchKey => obtain ⟨-, _, _, -, rfl⟩ := step_clientFetchKey h; exact ⟨rfl, hd⟩
  case clientSetFreshOsk => obtain ⟨-, _, -, rfl⟩ := step_clientSetFreshOsk h; exact ⟨rfl, hd⟩
  case clientFails => obtain rfl := step_clientFails h; exact ⟨rfl, hd⟩
  all_goals simp only [step, hd] at h; cases h

theorem run_of_serverDead {acts : List Action} (hd : d.serverAlive = false)
    (h : run shake qkd serverParams clientParams d acts = some d') :
    d'.serverOsks = d.serverOsks ∧ d'.serverAlive = false := by
  induction acts generalizing d with
  | nil => cases h; exact ⟨rfl, hd⟩
  | cons a as ih =>
    obtain ⟨d1, h1, h2⟩ := Option.bind_eq_some.mp h
    obtain ⟨e1, a1⟩ := step_of_serverDead hd h1
    obtain ⟨e2, a2⟩ := ih a1 h2
    exact ⟨e2.trans e1, a2⟩

/-- An acknowledgement byte other than `1` ends the server loop: the server passes no key
to `set_fresh_osk` for that round or any later one, whatever the rest of the run. -/
theorem run_badAck {a : UInt8} {rest : List UInt8}
    {acts : List Action} (ht : d.toServer = a :: rest) (hbad : a ≠ rekeyAck.dummyData)
    (h : run shake qkd serverParams clientParams d (.serverReadAck :: acts) = some d') :
    d'.serverOsks = d.serverOsks ∧ d'.serverAlive = false := by
  obtain ⟨d1, h1, h2⟩ := Option.bind_eq_some.mp h
  obtain ⟨-, key', nonce', a', rest', -, ht', rfl⟩ := step_serverReadAck h1
  rw [ht, List.cons.injEq] at ht'
  obtain ⟨rfl, rfl⟩ := ht'
  rw [if_neg hbad] at h2
  have hdead := run_of_serverDead (by rfl) h2
  exact hdead

/-- SHAKE256 read as zeros. -/
def zeroShake : Xof := ⟨fun _ n => Bytes.zeroed n⟩

def zeroQkd : Uuid → Key := fun _ => Bytes.zeroed keyLength

/-- An all-zero PSK, the server's peer id `0…0` and the client's `1…1`. -/
def serverZero : DaisywayProtocolParameters :=
  ⟨Bytes.zeroed 32, Bytes.zeroed 32, Mathlib.Vector.replicate 32 1⟩

def clientZero : DaisywayProtocolParameters :=
  ⟨Bytes.zeroed 32, Mathlib.Vector.replicate 32 1, Bytes.zeroed 32⟩

/-- A server waiting for the acknowledgement of its request, and the byte `0` in its place. -/
def awaitingBadAck : Duplex :=
  ⟨.awaitingAck ⟨⟨Bytes.zeroed 16⟩, Bytes.zeroed keyLength⟩ (Bytes.zeroed 32), .awaitingReq, [], [0],
    [], [], true, true⟩

theorem run_badAck_zero :
    ∃ d', run zeroShake zeroQkd serverZero clientZero awaitingBadAck [.serverReadAck, .clientFails] =
        some d' ∧ d'.serverOsks = [] ∧ d'.serverAlive = false := by
  obtain ⟨d', hd⟩ : ∃ d', run zeroShake zeroQkd serverZero clientZero awaitingBadAck
      [.serverReadAck, .clientFails] = some d' := ⟨_, rfl⟩
  exact ⟨d', hd, run_badAck rfl (by decide) hd⟩

end

/-! ## The request on the wire -/

/-- Reading the 48 bytes of a request back, as the client's `read_exact` into
`RekeyReq::as_mut_bytes` and `Uuid::from_bytes` do, gives the key id and the nonce. -/
theorem ofBytes_rekeyReqBytes (key : Etsi014Key) (nonce : Nonce) (h : (rekeyReqBytes key nonce).length = 48) :
    Uuid.fromBytes (RekeyReq.ofBytes ⟨rekeyReqBytes key nonce, h⟩).qkdKeyId = key.id ∧
      (RekeyReq.ofBytes ⟨rekeyReqBytes key nonce, h⟩).nonce = nonce := by
  constructor
  · exact congrArg Uuid.fromBytes (Subtype.ext (List.take_left' (by simp)))
  · exact Subtype.ext (List.drop_left' (by simp))

theorem ofBytes_take_rekeyReqBytes (key : Etsi014Key) (nonce : Nonce)
    (h : ((rekeyReqBytes key nonce).take 48).length = 48) :
    Uuid.fromBytes (RekeyReq.ofBytes ⟨(rekeyReqBytes key nonce).take 48, h⟩).qkdKeyId = key.id ∧
      (RekeyReq.ofBytes ⟨(rekeyReqBytes key nonce).take 48, h⟩).nonce = nonce := by
  have ht : (rekeyReqBytes key nonce).take 48 = rekeyReqBytes key nonce :=
    List.take_of_length_le (by simp [rekeyReqBytes])
  simp only [ht]
  exact ofBytes_rekeyReqBytes key nonce _

/-- `Uuid::to_bytes_le` equals `Uuid::as_bytes` exactly when each of the first three fields
reads the same both ways. -/
theorem Uuid.toBytesLe_eq_asBytes_iff (u : Uuid) :
    u.toBytesLe = u.asBytes ↔ u.bytes.get 0 = u.bytes.get 3 ∧ u.bytes.get 1 = u.bytes.get 2 ∧
      u.bytes.get 4 = u.bytes.get 5 ∧ u.bytes.get 6 = u.bytes.get 7 := by
  rw [Mathlib.Vector.ext_iff]
  simp only [Uuid.toBytesLe, Uuid.asBytes, Mathlib.Vector.get_ofFn]
  constructor
  · intro h
    exact ⟨h 3, h 2, h 5, h 7⟩
  · rintro ⟨h03, h12, h45, h67⟩ i
    have hi : leIndex i = i ∨ (i = 0 ∧ leIndex i = 3) ∨ (i = 3 ∧ leIndex i = 0) ∨
        (i = 1 ∧ leIndex i = 2) ∨ (i = 2 ∧ leIndex i = 1) ∨ (i = 4 ∧ leIndex i = 5) ∨
        (i = 5 ∧ leIndex i = 4) ∨ (i = 6 ∧ leIndex i = 7) ∨ (i = 7 ∧ leIndex i = 6) := by
      revert i; decide
    rcases hi with h | ⟨rfl, h⟩ | ⟨rfl, h⟩ | ⟨rfl, h⟩ | ⟨rfl, h⟩ | ⟨rfl, h⟩ | ⟨rfl, h⟩ | ⟨rfl, h⟩ |
      ⟨rfl, h⟩ <;> rw [h]
    exacts [h03.symm, h03, h12.symm, h12, h45.symm, h45, h67.symm, h67]

/-- The request `negotiate_key` writes is the key id in `as_bytes` order and the nonce, and
the client reads both back; it is the id in `to_bytes_le` order, the order of the KDF
input, only for ids whose first three fields read the same both ways. -/
theorem rekeyReqBytes_eq (key : Etsi014Key) (nonce : Nonce) :
    rekeyReqBytes key nonce = key.id.asBytes.toList ++ nonce.toList ∧
      (∃ h, Uuid.fromBytes (RekeyReq.ofBytes ⟨rekeyReqBytes key nonce, h⟩).qkdKeyId = key.id ∧
        (RekeyReq.ofBytes ⟨rekeyReqBytes key nonce, h⟩).nonce = nonce) ∧
      (rekeyReqBytes key nonce = key.id.toBytesLe.toList ++ nonce.toList ↔
        key.id.bytes.get 0 = key.id.bytes.get 3 ∧ key.id.bytes.get 1 = key.id.bytes.get 2 ∧
          key.id.bytes.get 4 = key.id.bytes.get 5 ∧ key.id.bytes.get 6 = key.id.bytes.get 7) := by
  refine ⟨rfl, ⟨by simp [rekeyReqBytes], ofBytes_rekeyReqBytes key nonce _⟩, ?_⟩
  rw [← Uuid.toBytesLe_eq_asBytes_iff, rekeyReqBytes, RekeyReq.asBytes, RekeyReq.new,
    append_eq_append_iff_of_length (by simp), Mathlib.Vector.toList_injective.eq_iff]
  simp only [and_true]
  exact eq_comm

/-- The UUID whose bytes are 0, 1, …, 15. -/
def uuidCounting : Uuid := ⟨Mathlib.Vector.ofFn fun i => i.val.toUInt8⟩

/-- For the key id 00010203-0405-0607-0809-0a0b0c0d0e0f the id bytes of the request are not
the id bytes of the KDF input built from the same QKD key, whatever the key, nonce, PSK and
peers. -/
theorem rekeyReqBytes_ne_kdfInput (psk nonce qkdKey : Key) (connId : WireGuardConnectionId) :
    (rekeyReqBytes ⟨uuidCounting, qkdKey⟩ nonce).take 16 ≠
      (KdfInput.new psk nonce ⟨uuidCounting, qkdKey⟩ connId).qkdKeyId.toList := by
  have hreq : (rekeyReqBytes ⟨uuidCounting, qkdKey⟩ nonce).take 16 = uuidCounting.asBytes.toList :=
    List.take_left' (by simp)
  rw [hreq, show (KdfInput.new psk nonce ⟨uuidCounting, qkdKey⟩ connId).qkdKeyId =
    uuidCounting.toBytesLe from rfl]
  decide

end Daisyway.Rekey
