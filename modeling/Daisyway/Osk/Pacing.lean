import Daisyway.Crypto.Clocked
import Daisyway.Osk.Deadman
import Daisyway.Setup

/-! # Rekey pacing against the deadman

The server loop hands a key to `set_fresh_osk` and sleeps `rekey_interval` before the next
negotiation, and `from_config` wraps the sink in a deadman that erases `rekey_interval + 30`
seconds after the last call: the server's key stands from one round to the next exactly when
every negotiation takes at most 30 seconds. A client whose own interval is shorter than the
server's by more than 30 seconds and its delay in handing a key over has its key erased in
every round. Handing a key on takes no time, and every deadline is taken to fit an `Instant`.
-/

set_option autoImplicit false

namespace Daisyway.Pacing

open Deadman Setup Rekey

/-- The requests one connection's server loop sends the deadman from `start`: a round's
`negotiate_key` takes its seconds and yields its key, `set_fresh_osk` sends the key at once,
and `sleep` takes `rekey_interval`. -/
def serverRequests (rekeyInterval : ℕ) : ℕ → List (ℕ × Key) → List Request
  | _, [] => []
  | start, (negotiation, key) :: rounds =>
    ⟨start + negotiation, key, .fresh⟩ ::
      serverRequests rekeyInterval (start + negotiation + rekeyInterval) rounds

theorem serverRequests_sorted (rekeyInterval : ℕ) :
    ∀ (rounds : List (ℕ × Key)) (start last : ℕ), last ≤ start →
      ((serverRequests rekeyInterval start rounds).map Request.time).Chain (· ≤ ·) last
  | [], _, _, _ => .nil
  | (_, _) :: rounds, _, _, h =>
    .cons (Nat.le_add_right_of_le h)
      (serverRequests_sorted rekeyInterval rounds _ _ (by dsimp only; omega))

/-- The negotiation times of rounds whose keys are handed over at `handoffs`, the first
round starting at `start`. -/
def negotiations (rekeyInterval : ℕ) : ℕ → List ℕ → List ℕ
  | _, [] => []
  | start, handoff :: handoffs => (handoff - start) :: negotiations rekeyInterval (handoff + rekeyInterval) handoffs

theorem serverRequests_negotiations (rekeyInterval : ℕ) :
    ∀ (handoffs : List ℕ) (keys : List Key) (start : ℕ), handoffs.length = keys.length →
      (∀ h ∈ handoffs.head?, start ≤ h) → handoffs.Chain' (fun x y => x + rekeyInterval ≤ y) →
      serverRequests rekeyInterval start ((negotiations rekeyInterval start handoffs).zip keys) =
        (handoffs.zip keys).map fun p => ⟨p.1, p.2, .fresh⟩
  | [], _, _, _, _, _ => rfl
  | _ :: _, [], _, hl, _, _ => by simp at hl
  | h :: handoffs, k :: keys, start, hl, hs, hc => by
    have hh : start + (h - start) = h := by have := hs h rfl; omega
    rw [negotiations, List.zip_cons_cons, serverRequests, List.zip_cons_cons, List.map_cons, hh,
      serverRequests_negotiations rekeyInterval handoffs keys _ (by simpa using hl) hc.rel_head?
        hc.tail]

@[simp] theorem length_negotiations (rekeyInterval : ℕ) :
    ∀ (start : ℕ) (handoffs : List ℕ),
      (negotiations rekeyInterval start handoffs).length = handoffs.length
  | _, [] => rfl
  | _, _ :: handoffs => congrArg (· + 1) (length_negotiations rekeyInterval _ handoffs)

section

variable {shake : Xof} {qkd : Uuid → Key} {serverParams clientParams : DaisywayProtocolParameters}

/-- Along every clocked run of one connection, the keys the server hands to `set_fresh_osk`,
at the times it does, are the requests `serverRequests` lists for rounds of some
negotiation times from time zero. -/
theorem clocked_serverRequests (hm : Mirrored serverParams clientParams) (rekeyInterval : ℕ)
    {acts : List (ℕ × Action)} {c : Clocked}
    (h : Clocked.run shake qkd serverParams clientParams rekeyInterval Clocked.init acts = some c) :
    ∃ rounds : List (ℕ × Key), rounds.map Prod.snd = c.duplex.serverOsks ∧
      serverRequests rekeyInterval 0 rounds =
        (c.serverHandoffs.zip c.duplex.serverOsks).map fun p => ⟨p.1, p.2, .fresh⟩ := by
  have hs := ServerPaced.run hm paced_init serverPaced_init h
  refine ⟨(negotiations rekeyInterval 0 c.serverHandoffs).zip c.duplex.serverOsks, ?_,
    serverRequests_negotiations rekeyInterval _ _ 0 hs.length (fun _ _ => Nat.zero_le _) hs.chain⟩
  exact List.map_snd_zip _ _ (by rw [length_negotiations, hs.length])

end

theorem serverRequests_gaps_iff (rekeyInterval eraseAfter : ℕ) :
    ∀ (rounds : List (ℕ × Key)) (last : ℕ),
      ((serverRequests rekeyInterval (last + rekeyInterval) rounds).map Request.time).Chain
          (fun x y => y ≤ x + eraseAfter) last ↔
        ∀ p ∈ rounds, rekeyInterval + p.1 ≤ eraseAfter
  | [], _ => by simp [serverRequests]
  | (negotiation, key) :: rounds, last => by
    have ih := serverRequests_gaps_iff rekeyInterval eraseAfter rounds
      (last + rekeyInterval + negotiation)
    rw [serverRequests, List.map_cons, List.chain_cons, ih, List.forall_mem_cons]
    exact and_congr_left' (by dsimp only; omega)

section

variable (linux : Bool) (etsiClient : Except String Unit) (socket : WgSocket)

theorem fromConfig_eraseAfter (cfg : DaisywayConfig) (d : Daisyway)
    (h : (Daisyway.fromConfig linux etsiClient socket cfg).run = some (.ok d))
    (hwrap : cfg.rekeyInterval.toNat + 30 < 2 ^ 64) :
    ∃ params o, d.participant = .fromConfig params cfg.peer.participant o cfg.rekeyInterval ∧
      o.eraseAfter.toNat = cfg.rekeyInterval.toNat + 30 := by
  obtain ⟨psk, l, r, o, -, -, -, -, ho, rfl⟩ :=
    (fromConfig_eq_ok_iff linux etsiClient socket cfg d).mp h
  refine ⟨⟨psk, l, r⟩, o, rfl, ?_⟩
  rcases (oskHandler_eq_ok_iff linux socket cfg o).mp ho with
    ⟨-, _, -, rfl⟩ | ⟨-, -, _, _, -, -, rfl⟩ <;>
    rw [startDeadman_eraseAfter, Nat.mod_eq_of_lt hwrap]

/-- A server that `from_config` built, during one connection whose rounds follow a first
one, every deadline of its deadman fitting an `Instant`: the deadman around its sink
receives every key, and from the first key on it never erases the key exactly when every
later negotiation takes at most 30 seconds. -/
theorem fromConfig_server_noErase_iff (cfg : DaisywayConfig) (d : Daisyway) (listen : String)
    (h : (Daisyway.fromConfig linux etsiClient socket cfg).run = some (.ok d))
    (hserver : cfg.peer.participant = .server listen)
    (hwrap : cfg.rekeyInterval.toNat + 30 < 2 ^ 64)
    (start : ℕ) (first : ℕ × Key) (rounds : List (ℕ × Key)) (horizon : ℕ)
    (hfit : ∀ t ∈ 0 :: (serverRequests cfg.rekeyInterval.toNat start (first :: rounds)).map
      Request.time, t + (cfg.rekeyInterval.toNat + 30) ≤ horizon) :
    ∃ params o, d.participant = .server params listen o cfg.rekeyInterval ∧
      ∃ w : Worker, (∀ fuel, w.calls.length ≤ fuel + 1 →
          drive o.eraseAfter.toNat horizon fuel (Deadman.start o.eraseAfter.toNat horizon true)
            (serverRequests cfg.rekeyInterval.toNat start (first :: rounds)) = some w) ∧
        w.status = .running ∧
        ∃ pre post, w.calls = pre ++ .setOsk (start + first.1) first.2 .fresh :: post ∧
          ((∀ c ∈ post, c.isErase = false) ↔ ∀ p ∈ rounds, p.1 ≤ 30) := by
  obtain ⟨params, o, hd, hE⟩ := fromConfig_eraseAfter linux etsiClient socket cfg d h hwrap
  rw [hserver] at hd
  refine ⟨params, o, hd, ?_⟩
  rw [hE]
  set R := cfg.rekeyInterval.toNat
  obtain ⟨now, hnow⟩ := drive_requests (R + 30) horizon (by omega)
    (serverRequests R start (first :: rounds)) (serverRequests_sorted R _ start 0 (Nat.zero_le _))
    hfit
  refine ⟨_, fun fuel hfuel => hnow fuel (by simpa using hfuel), rfl,
    .eraseStaleOsk 0 :: erasesFrom (R + 30) 0 ((start + first.1 - 0 - 1) / (R + 30)),
    callsFor (R + 30) (start + first.1) (serverRequests R (start + first.1 + R) rounds),
    by simp [serverRequests, callsFor], ?_⟩
  rw [callsFor_noErase_iff (R + 30) (by omega), serverRequests_gaps_iff]
  exact forall₂_congr fun _ _ => by omega

end

/-- A server writing its keys to `/run/osk`, with the default interval of 120 seconds. -/
def outfileServer : DaisywayConfig :=
  ⟨⟨none⟩, ⟨"AQEBAQEBAQEBAQEBAQEBAQEBAQEBAQEBAQEBAQEBAQE=",
    "AgICAgICAgICAgICAgICAgICAgICAgICAgICAgICAgI=", none⟩, some ⟨"/run/osk"⟩,
    ⟨.server "0.0.0.0:8000", none⟩⟩

/-- That server, the monotonic clock reading zero at its start: a first round of 2 seconds,
then one of 45 seconds, past the 30 seconds the deadman leaves. -/
theorem fromConfig_server_noErase_iff_slowRound :
    ∃ d, (Daisyway.fromConfig true (.ok ()) ⟨false, fun _ => none⟩ outfileServer).run =
        some (.ok d) ∧
      ∃ params o, d.participant = .server params "0.0.0.0:8000" o rekeyInterval ∧
        ∃ w : Worker, (∀ fuel, w.calls.length ≤ fuel + 1 →
            drive o.eraseAfter.toNat 9223372036854775807 fuel
              (Deadman.start o.eraseAfter.toNat 9223372036854775807 true)
              (serverRequests rekeyInterval.toNat 0 [(2, Bytes.zeroed 32), (45, Bytes.zeroed 32)]) =
                some w) ∧
          w.status = .running ∧
          ∃ pre post, w.calls = pre ++ .setOsk 2 (Bytes.zeroed 32) .fresh :: post ∧
            ((∀ c ∈ post, c.isErase = false) ↔ ∀ p ∈ [(45, Bytes.zeroed 32)], p.1 ≤ 30) := by
  obtain ⟨d, hd⟩ : ∃ d, (Daisyway.fromConfig true (.ok ()) ⟨false, fun _ => none⟩
      outfileServer).run = some (.ok d) := ⟨_, rfl⟩
  exact ⟨d, hd, fromConfig_server_noErase_iff true (.ok ()) ⟨false, fun _ => none⟩ _ d
    "0.0.0.0:8000" hd rfl (by decide) 0 (2, Bytes.zeroed 32) [(45, Bytes.zeroed 32)] _
    (by decide)⟩

/-- The requests the client's loop sends its deadman: each key it hands to `set_fresh_osk`,
at the time it does. -/
def clientRequests (handoffs : List ℕ) (keys : List Key) : List Request :=
  (handoffs.zip keys).map fun p => ⟨p.1, p.2, .fresh⟩

theorem clientRequests_time {handoffs : List ℕ} {keys : List Key}
    (h : handoffs.length = keys.length) : (clientRequests handoffs keys).map Request.time = handoffs := by
  rw [clientRequests, List.map_map]
  exact List.map_fst_zip _ _ h.le

theorem chain'_handoffs {rekeyInterval eraseAfter delay : ℕ} (hslow : eraseAfter + delay < rekeyInterval) :
    ∀ {l : List (ℕ × ℕ)}, l.Chain' (fun p q => p.1 + rekeyInterval ≤ q.1) →
      (∀ p ∈ l, p.1 ≤ p.2 ∧ p.2 ≤ p.1 + delay) →
      (l.map Prod.snd).Chain' fun a b => a + eraseAfter < b
  | [], _, _ => List.chain'_nil
  | [_], _, _ => List.chain'_singleton _
  | p :: q :: l, hc, hb => by
    rw [List.chain'_cons] at hc
    have hp := hb p (List.mem_cons_self _ _)
    have hq := hb q (List.mem_cons_of_mem _ (List.mem_cons_self _ _))
    rw [List.map_cons, List.map_cons, List.chain'_cons]
    have ih := chain'_handoffs hslow hc.2 fun r hr => hb r (List.mem_cons_of_mem _ hr)
    rw [List.map_cons] at ih
    exact ⟨by omega, ih⟩

section

variable {shake : Xof} {qkd : Uuid → Key} {serverParams clientParams : DaisywayProtocolParameters}
  {serverInterval : ℕ}

/-- Along a clocked run whose server sleeps longer than the client's deadman waits plus the
client's delay in handing a key over, the client's deadman receives every key the client
hands over and never two of them in a row: it erases the key between any two rounds. -/
theorem clientRequests_erased (hm : Mirrored serverParams clientParams)
    {acts : List (ℕ × Action)} {c : Clocked}
    (h : Clocked.run shake qkd serverParams clientParams serverInterval Clocked.init acts = some c)
    {eraseAfter delay horizon : ℕ} (hE : 0 < eraseAfter)
    (hdelay : ∀ p ∈ c.acks.zip c.clientHandoffs, p.2 ≤ p.1 + delay)
    (hslow : eraseAfter + delay < serverInterval)
    (hfit : ∀ t ∈ 0 :: c.clientHandoffs, t + eraseAfter ≤ horizon) :
    ∃ w : Worker, (∀ fuel, w.calls.length ≤ fuel + 1 →
        drive eraseAfter horizon fuel (Deadman.start eraseAfter horizon true)
          (clientRequests c.clientHandoffs c.duplex.clientOsks) = some w) ∧
      w.status = .running ∧ w.calls.Chain' fun x y => x.isErase = true ∨ y.isErase = true := by
  have hp : Paced shake qkd serverParams serverInterval c := Paced.run hm paced_init h
  have htime := clientRequests_time hp.handoffs_length
  have hsnd : (c.acks.zip c.clientHandoffs).map Prod.snd = c.clientHandoffs :=
    List.map_snd_zip _ _ (by rw [hp.length]; omega)
  have hgaps : ((clientRequests c.clientHandoffs c.duplex.clientOsks).map Request.time).Chain'
      fun a b => a + eraseAfter < b := by
    rw [htime, ← hsnd]
    exact chain'_handoffs hslow (chain'_zip_fst hp.acks) fun p hp' => ⟨hp.handoffs p hp', hdelay p hp'⟩
  obtain ⟨now, hnow⟩ := drive_requests eraseAfter horizon hE _
    ((hgaps.imp fun _ _ h => h.le.trans' (Nat.le_add_right _ _)).cons' fun _ _ => Nat.zero_le _)
    (by rwa [htime])
  exact ⟨_, fun fuel hfuel => hnow fuel (by simpa using hfuel), rfl,
    chain_callsFor eraseAfter hE _ 0 _ (.inl rfl) hgaps⟩

end

section

variable (linux : Bool) (etsiClient : Except String Unit) (socket : WgSocket)

end

/-- The client of that server. -/
def outfileClient : DaisywayConfig :=
  ⟨⟨none⟩, ⟨"AgICAgICAgICAgICAgICAgICAgICAgICAgICAgICAgI=",
    "AQEBAQEBAQEBAQEBAQEBAQEBAQEBAQEBAQEBAQEBAQE=", none⟩, some ⟨"/run/osk"⟩,
    ⟨.client "10.0.0.1:8000", none⟩⟩

end Daisyway.Pacing
