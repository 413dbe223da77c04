import Daisyway.Crypto.Protocol

/-! # Rekey agreement and lockstep

Every reachable state of the two loops is one of nine joint configurations,
each fixing both phases, the bytes in flight and the keys each side has
delivered, in terms of the rounds the server has opened so far. From them:
the two sequences of delivered keys are prefixes of one another and differ in
length by at most one, the i-th key on each side is derived from the i-th
request's key id and nonce, and the stream holds at most one whole request and
at most one whole acknowledgement.

The parameters of the two sides are mirrored: the same PSK, and each side's
local peer id is the other's remote one.
-/

set_option autoImplicit false

namespace Daisyway.Rekey

/-- The client's parameters mirror the server's. -/
structure Mirrored (serverParams clientParams : DaisywayProtocolParameters) : Prop where
  psk : clientParams.psk = serverParams.psk
  localPeerId : clientParams.localPeerId = serverParams.remotePeerId
  remotePeerId : clientParams.remotePeerId = serverParams.localPeerId

theorem Mirrored.deriveDaisywayKey_eq {shake : Xof} {serverParams clientParams : DaisywayProtocolParameters}
    (hm : Mirrored serverParams clientParams) (nonce : Nonce) (key : Etsi014Key) :
    deriveDaisywayKey shake clientParams nonce key = deriveDaisywayKey shake serverParams nonce key := by
  obtain ⟨psk, l, r⟩ := clientParams
  obtain ⟨hp, hl, hr⟩ := hm
  dsimp only at hp hl hr
  subst hp hl hr
  exact deriveDaisywayKey_swap shake serverParams nonce key

section

variable (shake : Xof) (qkd : Uuid → Key) (serverParams : DaisywayProtocolParameters)

/-- The OSK of the round with key id `r.1` and nonce `r.2`, as the server derives it. -/
def roundKey (r : Uuid × Nonce) : Key := deriveDaisywayKey shake serverParams r.2 ⟨r.1, qkd r.1⟩

/-- The joint configurations of the two loops when `K` are the keys of the rounds opened
so far; the `alive` flags are free. -/
inductive Config : List Key → Duplex → Prop
  /-- Between rounds. -/
  | idle (K sa ca) : Config K ⟨.fetching, .awaitingReq, [], [], K, K, sa, ca⟩
  /-- The server has delivered the last round's key `k`; the client is delivering it. -/
  | serverAhead (K k sa ca) : Config (K ++ [k]) ⟨.fetching, .delivering k, [], [], K ++ [k], K, sa, ca⟩
  /-- The request of the last round is in flight. -/
  | requested (K u n sa ca) : Config (K ++ [roundKey shake qkd serverParams (u, n)])
      ⟨.awaitingAck ⟨u, qkd u⟩ n, .awaitingReq, rekeyReqBytes ⟨u, qkd u⟩ n, [], K, K, sa, ca⟩
  /-- The request of the last round is in flight while the client delivers the key `k` of
  the round before. -/
  | requestedBehind (K k u n sa ca) : Config (K ++ [k] ++ [roundKey shake qkd serverParams (u, n)])
      ⟨.awaitingAck ⟨u, qkd u⟩ n, .delivering k, rekeyReqBytes ⟨u, qkd u⟩ n, [], K ++ [k], K, sa, ca⟩
  /-- The client has read the request and fetches the key. -/
  | fetching (K u n sa ca) : Config (K ++ [roundKey shake qkd serverParams (u, n)])
      ⟨.awaitingAck ⟨u, qkd u⟩ n, .fetching u n, [], [], K, K, sa, ca⟩
  /-- The acknowledgement is in flight; the client is delivering the round's key. -/
  | acked (K u n sa ca) : Config (K ++ [roundKey shake qkd serverParams (u, n)])
      ⟨.awaitingAck ⟨u, qkd u⟩ n, .delivering (roundKey shake qkd serverParams (u, n)), [],
        [rekeyAck.dummyData], K, K, sa, ca⟩
  /-- The acknowledgement is in flight; the client has delivered the round's key. -/
  | ackedClientAhead (K u n sa ca) : Config (K ++ [roundKey shake qkd serverParams (u, n)])
      ⟨.awaitingAck ⟨u, qkd u⟩ n, .awaitingReq, [], [rekeyAck.dummyData], K,
        K ++ [roundKey shake qkd serverParams (u, n)], sa, ca⟩
  /-- Both sides are delivering the last round's key `k`. -/
  | bothDelivering (K k sa ca) : Config (K ++ [k]) ⟨.delivering k, .delivering k, [], [], K, K, sa, ca⟩
  /-- The client has delivered the last round's key `k`; the server is delivering it. -/
  | clientAhead (K k sa ca) : Config (K ++ [k]) ⟨.delivering k, .awaitingReq, [], [], K, K ++ [k], sa, ca⟩

end

section

variable {shake : Xof} {qkd : Uuid → Key} {serverParams clientParams : DaisywayProtocolParameters}
  {d d' : Duplex}

variable {K : List Key}

theorem Config.setServerAlive (hc : Config shake qkd serverParams K d) (b : Bool) :
    Config shake qkd serverParams K { d with serverAlive := b } := by
  cases hc
  exacts [.idle _ _ _, .serverAhead _ _ _ _, .requested _ _ _ _ _, .requestedBehind _ _ _ _ _ _,
    .fetching _ _ _ _ _, .acked _ _ _ _ _, .ackedClientAhead _ _ _ _ _, .bothDelivering _ _ _ _,
    .clientAhead _ _ _ _]

theorem Config.setClientAlive (hc : Config shake qkd serverParams K d) (b : Bool) :
    Config shake qkd serverParams K { d with clientAlive := b } := by
  cases hc
  exacts [.idle _ _ _, .serverAhead _ _ _ _, .requested _ _ _ _ _, .requestedBehind _ _ _ _ _ _,
    .fetching _ _ _ _ _, .acked _ _ _ _ _, .ackedClientAhead _ _ _ _ _, .bothDelivering _ _ _ _,
    .clientAhead _ _ _ _]

theorem Config.step (hm : Mirrored serverParams clientParams) {a : Action}
    (hc : Config shake qkd serverParams K d)
    (h : step shake qkd serverParams clientParams d a = some d') :
    Config shake qkd serverParams (K ++ (negotiated [a]).map (roundKey shake qkd serverParams)) d' := by
  cases a with
  | serverNegotiate u n =>
    obtain ⟨-, hs, rfl⟩ := step_serverNegotiate h
    cases hc <;> cases hs
    · exact .requested _ u n _ _
    · exact .requestedBehind _ _ u n _ _
  | serverReadAck =>
    obtain ⟨-, key, nonce, a, rest, hs, ht, rfl⟩ := step_serverReadAck h
    simp only [negotiated, List.map_nil, List.append_nil]
    cases hc <;> cases hs <;> cases ht
    · exact .bothDelivering _ _ _ _
    · exact .clientAhead _ _ _ _
  | serverSetFreshOsk ok =>
    obtain ⟨-, osk, hs, rfl⟩ := step_serverSetFreshOsk h
    simp only [negotiated, List.map_nil, List.append_nil]
    cases hc <;> cases hs
    · exact .serverAhead _ _ _ _
    · exact .idle _ _ _
  | serverFails =>
    obtain rfl := step_serverFails h
    simpa only [negotiated, List.map_nil, List.append_nil] using hc.setServerAlive false
  | clientReadReq =>
    obtain ⟨-, hcl, hl, rfl⟩ := step_clientReadReq h
    simp only [negotiated, List.map_nil, List.append_nil]
    cases hc <;> cases hcl <;> try simp at hl
    rename_i K u n sa ca
    obtain ⟨hu, hn⟩ := ofBytes_take_rekeyReqBytes ⟨u, qkd u⟩ n (by simp [rekeyReqBytes])
    have hd : (rekeyReqBytes ⟨u, qkd u⟩ n).drop 48 = [] := List.drop_eq_nil_of_le (by simp [rekeyReqBytes])
    dsimp only
    rw [hu, hn, hd]
    exact .fetching _ _ _ _ _
  | clientFetchKey =>
    obtain ⟨-, id, nonce, hcl, rfl⟩ := step_clientFetchKey h
    simp only [negotiated, List.map_nil, List.append_nil]
    cases hc <;> cases hcl
    rw [hm.deriveDaisywayKey_eq]
    exact .acked _ _ _ _ _
  | clientSetFreshOsk ok =>
    obtain ⟨-, osk, hcl, rfl⟩ := step_clientSetFreshOsk h
    simp only [negotiated, List.map_nil, List.append_nil]
    cases hc <;> cases hcl
    · exact .idle _ _ _
    · exact .requested _ _ _ _ _
    · exact .ackedClientAhead _ _ _ _ _
    · exact .clientAhead _ _ _ _
  | clientFails =>
    obtain rfl := step_clientFails h
    simpa only [negotiated, List.map_nil, List.append_nil] using hc.setClientAlive false

theorem negotiated_cons (a : Action) (as : List Action) :
    negotiated (a :: as) = negotiated [a] ++ negotiated as := by
  cases a <;> rfl

theorem Config.run (hm : Mirrored serverParams clientParams) {acts : List Action}
    (hc : Config shake qkd serverParams K d)
    (h : run shake qkd serverParams clientParams d acts = some d') :
    Config shake qkd serverParams (K ++ (negotiated acts).map (roundKey shake qkd serverParams)) d' := by
  induction acts generalizing K d with
  | nil =>
    cases h
    simpa [negotiated] using hc
  | cons a as ih =>
    obtain ⟨d1, h1, h2⟩ := Option.bind_eq_some.mp h
    rw [negotiated_cons, List.map_append, ← List.append_assoc]
    exact ih (hc.step hm h1) h2

/-- Both sides' keys are prefixes of the round keys, and of one another, one at most one
key ahead. -/
theorem Config.osks (hc : Config shake qkd serverParams K d) :
    d.serverOsks <+: K ∧ d.clientOsks <+: K ∧
      (d.serverOsks <+: d.clientOsks ∨ d.clientOsks <+: d.serverOsks) ∧
      d.serverOsks.length ≤ d.clientOsks.length + 1 ∧ d.clientOsks.length ≤ d.serverOsks.length + 1 := by
  have h1 {l : List Key} (x : Key) : l <+: l ++ [x] := List.prefix_append _ _
  cases hc
  all_goals refine ⟨?_, ?_, ?_, by simp only [List.length_append, List.length_singleton]; omega,
    by simp only [List.length_append, List.length_singleton]; omega⟩
  all_goals first
    | exact List.prefix_refl _
    | exact h1 _
    | exact (h1 _).trans (h1 _)
    | exact .inl (List.prefix_refl _)
    | exact .inl (h1 _)
    | exact .inr (h1 _)

theorem Config.channels (hc : Config shake qkd serverParams K d) :
    (d.toClient = [] ∨ ∃ id nonce, d.toClient = rekeyReqBytes ⟨id, qkd id⟩ nonce) ∧
      (d.toServer = [] ∨ d.toServer = [rekeyAck.dummyData]) := by
  cases hc
  all_goals first
    | exact ⟨.inl rfl, .inl rfl⟩
    | exact ⟨.inl rfl, .inr rfl⟩
    | exact ⟨.inr ⟨_, _, rfl⟩, .inl rfl⟩

/-- A client fetching a key fetches the one the server is waiting on, with its nonce. -/
theorem Config.fetching_agree (hc : Config shake qkd serverParams K d) {id : Uuid} {nonce : Nonce}
    (h : d.client = .fetching id nonce) : d.server = .awaitingAck ⟨id, qkd id⟩ nonce := by
  cases hc <;> cases h
  rfl

/-- Any interleaving of the two loops, mirrored parameters and a QKD device that answers
for an id with the key it issued: the keys the two sides pass to `set_fresh_osk` are
prefixes of one another and at most one apart, the i-th key of each side is derived from
the key id and nonce of the i-th request, the stream holds at most one whole request and
one whole acknowledgement, and the client fetches the key the server is waiting on. -/
theorem run_lockstep (hm : Mirrored serverParams clientParams) {acts : List Action}
    (h : run shake qkd serverParams clientParams Duplex.init acts = some d) :
    (d.serverOsks <+: d.clientOsks ∨ d.clientOsks <+: d.serverOsks) ∧
      d.serverOsks.length ≤ d.clientOsks.length + 1 ∧ d.clientOsks.length ≤ d.serverOsks.length + 1 ∧
      d.serverOsks <+: (negotiated acts).map
        (fun r => deriveDaisywayKey shake serverParams r.2 ⟨r.1, qkd r.1⟩) ∧
      d.clientOsks <+: (negotiated acts).map
        (fun r => deriveDaisywayKey shake clientParams r.2 ⟨r.1, qkd r.1⟩) ∧
      (d.toClient = [] ∨ ∃ id nonce, d.toClient = rekeyReqBytes ⟨id, qkd id⟩ nonce) ∧
      (d.toServer = [] ∨ d.toServer = [rekeyAck.dummyData]) ∧
      ∀ id nonce, d.client = .fetching id nonce → d.server = .awaitingAck ⟨id, qkd id⟩ nonce := by
  have hc := Config.run hm (Config.idle [] true true) h
  rw [List.nil_append] at hc
  obtain ⟨hs, hcl, hpre, hl1, hl2⟩ := hc.osks
  have hmap : (negotiated acts).map (fun r => deriveDaisywayKey shake clientParams r.2 ⟨r.1, qkd r.1⟩) =
      (negotiated acts).map (roundKey shake qkd serverParams) :=
    List.map_congr_left fun r _ => hm.deriveDaisywayKey_eq r.2 ⟨r.1, qkd r.1⟩
  exact ⟨hpre, hl1, hl2, hs, hmap ▸ hcl, hc.channels.1, hc.channels.2,
    fun _ _ => hc.fetching_agree⟩

end

/-! ## A concrete round -/

theorem mirrored_zero : Mirrored serverZero clientZero := ⟨rfl, rfl, rfl⟩

/-- One full round on the key id \`uuidCounting\` and the all-zero nonce. -/
def oneRound : List Action :=
  [.serverNegotiate uuidCounting (Bytes.zeroed 32), .clientReadReq, .clientFetchKey,
    .serverReadAck, .clientSetFreshOsk true, .serverSetFreshOsk true]

/-- After that round both sides have handed over the key of its request. -/
theorem run_lockstep_oneRound :
    ∃ d, run zeroShake zeroQkd serverZero clientZero Duplex.init oneRound = some d ∧
      d.serverOsks = [roundKey zeroShake zeroQkd serverZero (uuidCounting, Bytes.zeroed 32)] ∧
      d.clientOsks = d.serverOsks ∧
      (d.serverOsks <+: d.clientOsks ∨ d.clientOsks <+: d.serverOsks) ∧
      d.serverOsks.length ≤ d.clientOsks.length + 1 ∧ d.clientOsks.length ≤ d.serverOsks.length + 1 ∧
      d.serverOsks <+: (negotiated oneRound).map
        (fun r => deriveDaisywayKey zeroShake serverZero r.2 ⟨r.1, zeroQkd r.1⟩) ∧
      d.clientOsks <+: (negotiated oneRound).map
        (fun r => deriveDaisywayKey zeroShake clientZero r.2 ⟨r.1, zeroQkd r.1⟩) ∧
      (d.toClient = [] ∨ ∃ id nonce, d.toClient = rekeyReqBytes ⟨id, zeroQkd id⟩ nonce) ∧
      (d.toServer = [] ∨ d.toServer = [rekeyAck.dummyData]) ∧
      ∀ id nonce, d.client = .fetching id nonce → d.server = .awaitingAck ⟨id, zeroQkd id⟩ nonce :=
  ⟨_, rfl, rfl, rfl, run_lockstep mirrored_zero rfl⟩

end Daisyway.Rekey
