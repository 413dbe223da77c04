import Daisyway.Crypto.Lockstep

/-! # The rekey loops against the clock

A clocked run gives each await point of the two loops the time it completes. Times never
go back, and the server writes a request only once the `sleep(rekey_interval)` that follows
its last `set_fresh_osk` has ended. The client writes one acknowledgement per round, and
before the next one the server has to read it, pass its key on, sleep and send a request:
along every clocked run the client's acknowledgements are at least `rekey_interval`
apart, and the client hands each key to `set_fresh_osk` no earlier than it acknowledged
the round. Without its times, a clocked run is a run of the two loops.
-/

set_option autoImplicit false

namespace Daisyway.Rekey

/-- The two loops with the times that pace them: when the last await point completed, when
the server's `sleep` ends, when the server wrote its last request, when the client wrote
each acknowledgement, and when each peer handed each of its keys to `set_fresh_osk`. -/
structure Clocked where
  duplex : Duplex
  now : ℕ
  wake : ℕ
  requestAt : ℕ
  acks : List ℕ
  clientHandoffs : List ℕ
  serverHandoffs : List ℕ

def Clocked.init : Clocked := ⟨Duplex.init, 0, 0, 0, [], [], []⟩

def ClientPhase.isFetching : ClientPhase → Bool
  | .fetching _ _ => true
  | _ => false

/-- The acknowledgements of rounds whose key the client has not handed over yet. -/
def ClientPhase.unhanded : ClientPhase → ℕ
  | .delivering _ => 1
  | _ => 0

section

variable (shake : Xof) (qkd : Uuid → Key) (serverParams clientParams : DaisywayProtocolParameters)
  (rekeyInterval : ℕ)

/-- The await point `a` completing at time `t`, no earlier than the last one, and what the
clock records of it. -/
def Clocked.stepAt (c : Clocked) (t : ℕ) (a : Action) (record : Clocked → Clocked) :
    Option Clocked :=
  if c.now ≤ t then
    (step shake qkd serverParams clientParams c.duplex a).map fun d =>
      record { c with duplex := d, now := t }
  else none

/-- One await point of either loop completing at time `t`: the server writes its request
once its `sleep` has ended, and `set_fresh_osk` returning starts the next `sleep`. -/
def Clocked.step (c : Clocked) (t : ℕ) : Action → Option Clocked
  | .serverNegotiate id nonce =>
    if c.wake ≤ t then
      c.stepAt shake qkd serverParams clientParams t (.serverNegotiate id nonce) fun c =>
        { c with requestAt := t }
    else none
  | .serverSetFreshOsk ok =>
    c.stepAt shake qkd serverParams clientParams t (.serverSetFreshOsk ok) fun c =>
      { c with wake := t + rekeyInterval, serverHandoffs := c.serverHandoffs ++ [t] }
  | .clientFetchKey =>
    c.stepAt shake qkd serverParams clientParams t .clientFetchKey fun c =>
      { c with acks := c.acks ++ [t] }
  | .clientSetFreshOsk ok =>
    c.stepAt shake qkd serverParams clientParams t (.clientSetFreshOsk ok) fun c =>
      { c with clientHandoffs := c.clientHandoffs ++ [t] }
  | a => c.stepAt shake qkd serverParams clientParams t a id

/-- The await points one after another, each with its time. -/
def Clocked.run : Clocked → List (ℕ × Action) → Option Clocked
  | c, [] => some c
  | c, (t, a) :: as =>
    (Clocked.step shake qkd serverParams clientParams rekeyInterval c t a).bind fun c' =>
      Clocked.run c' as

/-- What every clocked run of the two loops keeps: the joint configuration; acknowledgements
`rekey_interval` apart and none later than now; a server about to fetch, or a request in
flight or being served, being due no earlier than `rekey_interval` after the last
acknowledgement; and each key handed over no earlier than its round's acknowledgement. -/
structure Paced (c : Clocked) : Prop where
  config : ∃ K, Config shake qkd serverParams K c.duplex
  acks : c.acks.Chain' fun x y => x + rekeyInterval ≤ y
  ack_le : ∀ a ∈ c.acks.getLast?, a ≤ c.now
  requestAt_le : c.requestAt ≤ c.now
  wake : c.duplex.server = .fetching → ∀ a ∈ c.acks.getLast?, a + rekeyInterval ≤ c.wake
  request : (c.duplex.toClient ≠ [] ∨ c.duplex.client.isFetching = true) →
    ∀ a ∈ c.acks.getLast?, a + rekeyInterval ≤ c.requestAt
  handoffs : ∀ p ∈ c.acks.zip c.clientHandoffs, p.1 ≤ p.2
  length : c.acks.length = c.clientHandoffs.length + c.duplex.client.unhanded
  handoffs_length : c.clientHandoffs.length = c.duplex.clientOsks.length

end

section

variable {shake : Xof} {qkd : Uuid → Key} {serverParams clientParams : DaisywayProtocolParameters}
  {rekeyInterval : ℕ} {c c' : Clocked} {t : ℕ}

theorem Clocked.stepAt_eq_some {a : Action} {record : Clocked → Clocked}
    (h : c.stepAt shake qkd serverParams clientParams t a record = some c') :
    c.now ≤ t ∧ ∃ d, Rekey.step shake qkd serverParams clientParams c.duplex a = some d ∧
      c' = record { c with duplex := d, now := t } := by
  unfold Clocked.stepAt at h
  split at h
  · obtain ⟨d, hd, rfl⟩ := Option.map_eq_some'.mp h
    exact ⟨‹_›, d, hd, rfl⟩
  · cases h

theorem Clocked.step_duplex {a : Action}
    (h : Clocked.step shake qkd serverParams clientParams rekeyInterval c t a = some c') :
    c.now ≤ t ∧ c'.now = t ∧ Rekey.step shake qkd serverParams clientParams c.duplex a = some c'.duplex := by
  have key : ∀ {record : Clocked → Clocked},
      c.stepAt shake qkd serverParams clientParams t a record = some c' →
      (∀ x, (record x).duplex = x.duplex) → (∀ x, (record x).now = x.now) →
      c.now ≤ t ∧ c'.now = t ∧ Rekey.step shake qkd serverParams clientParams c.duplex a = some c'.duplex :=
    fun hs hd hn => by
      obtain ⟨hle, d, hstep, rfl⟩ := Clocked.stepAt_eq_some hs
      exact ⟨hle, hn _, by rw [hd]; exact hstep⟩
  cases a <;> simp only [Clocked.step] at h
  case serverNegotiate =>
    split at h
    · exact key h (fun _ => rfl) (fun _ => rfl)
    · cases h
  all_goals exact key h (fun _ => rfl) (fun _ => rfl)

theorem Clocked.run_duplex {acts : List (ℕ × Action)}
    (h : Clocked.run shake qkd serverParams clientParams rekeyInterval c acts = some c') :
    Rekey.run shake qkd serverParams clientParams c.duplex (acts.map Prod.snd) = some c'.duplex := by
  induction acts generalizing c with
  | nil => cases h; rfl
  | cons ta acts ih =>
    obtain ⟨c1, h1, h2⟩ := Option.bind_eq_some.mp h
    rw [List.map_cons, Rekey.run, (Clocked.step_duplex h1).2.2, Option.some_bind]
    exact ih h2

theorem Config.fetching_toClient {K : List Key} {d : Duplex}
    (hc : Config shake qkd serverParams K d) (h : d.client.isFetching = true) : d.toClient = [] := by
  cases hc <;> first | rfl | cases h

theorem paced_init : Paced shake qkd serverParams rekeyInterval Clocked.init :=
  ⟨⟨[], .idle [] true true⟩, List.chain'_nil, by simp [Clocked.init], le_rfl,
    by simp [Clocked.init], by simp [Clocked.init], by simp [Clocked.init], rfl, rfl⟩

theorem Paced.frame (hp : Paced shake qkd serverParams rekeyInterval c) {K : List Key}
    (hc : Config shake qkd serverParams K c'.duplex) (hnow : c.now ≤ c'.now)
    (hacks : c'.acks = c.acks) (hh : c'.clientHandoffs = c.clientHandoffs)
    (hr : c'.requestAt = c.requestAt) (hcl : c'.duplex.client = c.duplex.client)
    (hto : c'.duplex.toClient = c.duplex.toClient)
    (hosks : c'.duplex.clientOsks = c.duplex.clientOsks)
    (hserver : c'.duplex.server = .fetching → c.duplex.server = .fetching ∧ c'.wake = c.wake) :
    Paced shake qkd serverParams rekeyInterval c' := by
  refine ⟨⟨K, hc⟩, hacks ▸ hp.acks, fun a ha => ?_, hr ▸ hp.requestAt_le.trans hnow,
    fun hs a ha => ?_, fun hreq a ha => ?_, hacks ▸ hh ▸ hp.handoffs, ?_, ?_⟩
  · rw [hacks] at ha
    exact (hp.ack_le a ha).trans hnow
  · obtain ⟨hs', hw⟩ := hserver hs
    rw [hacks] at ha
    exact hw ▸ hp.wake hs' a ha
  · rw [hto, hcl] at hreq
    rw [hacks] at ha
    exact hr ▸ hp.request hreq a ha
  · rw [hacks, hh, hcl]; exact hp.length
  · rw [hh, hosks]; exact hp.handoffs_length

theorem mem_zip_append_singleton {l m : List ℕ} {t : ℕ} (h : l.length = m.length + 1)
    {p : ℕ × ℕ} (hp : p ∈ l.zip (m ++ [t])) : p ∈ l.zip m ∨ p.1 ∈ l.getLast? ∧ p.2 = t := by
  obtain ⟨init, last, rfl⟩ := (List.eq_nil_or_concat l).resolve_left fun h0 => by simp [h0] at h
  rw [List.concat_eq_append] at hp h ⊢
  have hinit : init.length = m.length := by simpa using h
  rw [List.zip_append hinit, List.mem_append] at hp
  rw [← List.append_nil m, List.zip_append hinit]
  simpa [Prod.ext_iff, eq_comm] using hp

theorem Paced.step (hm : Mirrored serverParams clientParams)
    (hp : Paced shake qkd serverParams rekeyInterval c) {a : Action}
    (h : Clocked.step shake qkd serverParams clientParams rekeyInterval c t a = some c') :
    Paced shake qkd serverParams rekeyInterval c' := by
  obtain ⟨K, hK⟩ := hp.config
  obtain ⟨hle, -, hstep⟩ := Clocked.step_duplex h
  have hK' := hK.step hm hstep
  cases a <;> simp only [Clocked.step] at h
  case serverNegotiate =>
    split at h
    case isFalse => cases h
    rename_i hwake
    obtain ⟨-, d, hd, rfl⟩ := Clocked.stepAt_eq_some h
    obtain ⟨-, hs, rfl⟩ := step_serverNegotiate hd
    exact ⟨⟨_, hK'⟩, hp.acks, fun a ha => (hp.ack_le a ha).trans hle, le_rfl,
      fun hs' => (by cases hs'), fun _ a ha => (hp.wake hs a ha).trans hwake, hp.handoffs,
      hp.length, hp.handoffs_length⟩
  case serverReadAck =>
    obtain ⟨-, d, hd, rfl⟩ := Clocked.stepAt_eq_some h
    obtain ⟨-, _, _, a, _, hs, -, rfl⟩ := step_serverReadAck hd
    refine hp.frame hK' hle rfl rfl rfl ?_ ?_ ?_ ?_ <;> dsimp only [id] <;> split_ifs
    all_goals first | rfl | exact fun hs' => ⟨hs', rfl⟩ | exact fun hs' => (by cases hs')
  case serverSetFreshOsk =>
    obtain ⟨-, d, hd, rfl⟩ := Clocked.stepAt_eq_some h
    obtain ⟨-, _, -, rfl⟩ := step_serverSetFreshOsk hd
    exact ⟨⟨_, hK'⟩, hp.acks, fun a ha => (hp.ack_le a ha).trans hle,
      hp.requestAt_le.trans hle, fun _ a ha => Nat.add_le_add_right ((hp.ack_le a ha).trans hle) _,
      hp.request, hp.handoffs, hp.length, hp.handoffs_length⟩
  case serverFails =>
    obtain ⟨-, d, hd, rfl⟩ := Clocked.stepAt_eq_some h
    obtain rfl := step_serverFails hd
    exact hp.frame hK' hle rfl rfl rfl rfl rfl rfl fun hs => ⟨hs, rfl⟩
  case clientReadReq =>
    obtain ⟨-, d, hd, rfl⟩ := Clocked.stepAt_eq_some h
    obtain ⟨-, hcl, hl, rfl⟩ := step_clientReadReq hd
    have hne : c.duplex.toClient ≠ [] := List.ne_nil_of_length_pos (by omega)
    refine ⟨⟨_, hK'⟩, hp.acks, fun a ha => (hp.ack_le a ha).trans hle,
      hp.requestAt_le.trans hle, hp.wake, fun _ => hp.request (.inl hne), hp.handoffs, ?_,
      hp.handoffs_length⟩
    simpa [hcl, ClientPhase.unhanded] using hp.length
  case clientFetchKey =>
    obtain ⟨-, d, hd, rfl⟩ := Clocked.stepAt_eq_some h
    obtain ⟨-, id, nonce, hcf, rfl⟩ := step_clientFetchKey hd
    have hfetch : c.duplex.client.isFetching = true := by rw [hcf]; rfl
    have hsA := hK.fetching_agree hcf
    have hto := hK.fetching_toClient hfetch
    have hlen : c.acks.length = c.clientHandoffs.length := by
      simpa [hcf, ClientPhase.unhanded] using hp.length
    refine ⟨⟨_, hK'⟩, hp.acks.append (List.chain'_singleton t) fun x hx y hy => ?_,
      by simp, hp.requestAt_le.trans hle, fun hs => (by rw [hsA] at hs; cases hs),
      fun hreq => (by simp [hto, ClientPhase.isFetching] at hreq), fun p hp' => ?_,
      by simp [hlen, ClientPhase.unhanded], hp.handoffs_length⟩
    · cases hy
      exact (hp.request (.inr hfetch) x hx).trans (hp.requestAt_le.trans hle)
    · rw [← List.append_nil c.clientHandoffs, List.zip_append hlen] at hp'
      exact hp.handoffs p (by simpa using hp')
  case clientSetFreshOsk =>
    obtain ⟨-, d, hd, rfl⟩ := Clocked.stepAt_eq_some h
    obtain ⟨-, _, hcd, rfl⟩ := step_clientSetFreshOsk hd
    have hlen : c.acks.length = c.clientHandoffs.length + 1 := by
      simpa [hcd, ClientPhase.unhanded] using hp.length
    refine ⟨⟨_, hK'⟩, hp.acks, fun a ha => (hp.ack_le a ha).trans hle,
      hp.requestAt_le.trans hle, hp.wake, fun hreq => hp.request (.inl ?_), fun p hp' => ?_,
      by simp [hlen, ClientPhase.unhanded], by simp [hp.handoffs_length]⟩
    · simpa [ClientPhase.isFetching] using hreq
    · rcases mem_zip_append_singleton hlen hp' with hp' | ⟨ha, hp2⟩
      · exact hp.handoffs p hp'
      · exact hp2 ▸ (hp.ack_le _ ha).trans hle
  case clientFails =>
    obtain ⟨-, d, hd, rfl⟩ := Clocked.stepAt_eq_some h
    obtain rfl := step_clientFails hd
    exact hp.frame hK' hle rfl rfl rfl rfl rfl rfl fun hs => ⟨hs, rfl⟩

theorem Paced.run (hm : Mirrored serverParams clientParams)
    (hp : Paced shake qkd serverParams rekeyInterval c) {acts : List (ℕ × Action)}
    (h : Clocked.run shake qkd serverParams clientParams rekeyInterval c acts = some c') :
    Paced shake qkd serverParams rekeyInterval c' := by
  induction acts generalizing c with
  | nil => cases h; exact hp
  | cons ta acts ih =>
    obtain ⟨c1, h1, h2⟩ := Option.bind_eq_some.mp h
    exact ih (hp.step hm h1) h2

/-- What every clocked run keeps of the server's pacing: a hand-off time for each key the
server passed to `set_fresh_osk`, consecutive ones at least `rekey_interval` apart, its
`sleep` ending `rekey_interval` after the last one, and a request in hand only once that
`sleep` has ended. -/
structure ServerPaced (rekeyInterval : ℕ) (c : Clocked) : Prop where
  length : c.serverHandoffs.length = c.duplex.serverOsks.length
  chain : c.serverHandoffs.Chain' fun x y => x + rekeyInterval ≤ y
  wake : ∀ h ∈ c.serverHandoffs.getLast?, c.wake = h + rekeyInterval
  negotiated : c.duplex.server ≠ .fetching → c.wake ≤ c.requestAt

theorem serverPaced_init : ServerPaced rekeyInterval Clocked.init :=
  ⟨rfl, List.chain'_nil, by simp [Clocked.init], fun h => absurd rfl h⟩

theorem ServerPaced.frame (hs : ServerPaced rekeyInterval c)
    (hh : c'.serverHandoffs = c.serverHandoffs) (hw : c'.wake = c.wake)
    (hr : c'.requestAt = c.requestAt) (ho : c'.duplex.serverOsks = c.duplex.serverOsks)
    (hserver : c'.duplex.server ≠ .fetching → c.duplex.server ≠ .fetching) :
    ServerPaced rekeyInterval c' := by
  refine ⟨by rw [hh, ho]; exact hs.length, by rw [hh]; exact hs.chain, fun h hl => ?_,
    fun hf => by rw [hw, hr]; exact hs.negotiated (hserver hf)⟩
  rw [hh] at hl
  rw [hw, hs.wake h hl]

theorem ServerPaced.step (hp : Paced shake qkd serverParams rekeyInterval c)
    (hs : ServerPaced rekeyInterval c) {a : Action}
    (h : Clocked.step shake qkd serverParams clientParams rekeyInterval c t a = some c') :
    ServerPaced rekeyInterval c' := by
  obtain ⟨hle, -, -⟩ := Clocked.step_duplex h
  cases a <;> simp only [Clocked.step] at h
  case serverNegotiate =>
    split at h
    case isFalse => cases h
    rename_i hwake
    obtain ⟨-, d, hd, rfl⟩ := Clocked.stepAt_eq_some h
    obtain ⟨-, -, rfl⟩ := step_serverNegotiate hd
    exact ⟨hs.length, hs.chain, hs.wake, fun _ => hwake⟩
  case serverReadAck =>
    obtain ⟨-, d, hd, rfl⟩ := Clocked.stepAt_eq_some h
    obtain ⟨-, _, _, a, _, hsrv, -, rfl⟩ := step_serverReadAck hd
    refine hs.frame rfl rfl rfl ?_ fun _ => by rw [hsrv]; exact nofun
    dsimp only [id]
    split_ifs <;> rfl
  case serverSetFreshOsk =>
    obtain ⟨-, d, hd, rfl⟩ := Clocked.stepAt_eq_some h
    obtain ⟨-, _, hsrv, rfl⟩ := step_serverSetFreshOsk hd
    have hdue : c.wake ≤ t :=
      (hs.negotiated (by rw [hsrv]; exact nofun)).trans (hp.requestAt_le.trans hle)
    refine ⟨by simp [hs.length], hs.chain.append (List.chain'_singleton t) fun x hx y hy => ?_,
      by simp, fun hf => absurd rfl hf⟩
    cases hy
    rw [← hs.wake x hx]
    exact hdue
  -- a failed server step and the client's steps leave the server's side as it was
  all_goals
    obtain ⟨-, d, hd, rfl⟩ := Clocked.stepAt_eq_some h
    first
      | obtain rfl := step_serverFails hd
      | obtain rfl := step_clientFails hd
      | obtain ⟨-, -, -, rfl⟩ := step_clientReadReq hd
      | obtain ⟨-, _, _, -, rfl⟩ := step_clientFetchKey hd
      | obtain ⟨-, _, -, rfl⟩ := step_clientSetFreshOsk hd
    exact hs.frame rfl rfl rfl rfl id

theorem ServerPaced.run (hm : Mirrored serverParams clientParams)
    (hp : Paced shake qkd serverParams rekeyInterval c) (hs : ServerPaced rekeyInterval c)
    {acts : List (ℕ × Action)}
    (h : Clocked.run shake qkd serverParams clientParams rekeyInterval c acts = some c') :
    ServerPaced rekeyInterval c' := by
  induction acts generalizing c with
  | nil => cases h; exact hs
  | cons ta acts ih =>
    obtain ⟨c1, h1, h2⟩ := Option.bind_eq_some.mp h
    exact ih (hp.step hm h1) (hs.step hp h1) h2

theorem chain'_zip_fst {β : Type} {R : ℕ → ℕ → Prop} :
    ∀ {l : List ℕ} {m : List β}, l.Chain' R → (l.zip m).Chain' fun p q => R p.1 q.1
  | [], _, _ => List.chain'_nil
  | [_], m, _ => by cases m <;> simp
  | _ :: _ :: _, [], _ => List.chain'_nil
  | _ :: _ :: _, [_], _ => List.chain'_singleton _
  | a :: b :: l, x :: y :: m, h => by
    rw [List.chain'_cons] at h
    rw [List.zip_cons_cons, List.zip_cons_cons, List.chain'_cons]
    exact ⟨h.1, by simpa only [List.zip_cons_cons] using chain'_zip_fst (m := y :: m) h.2⟩

end

/-- Two rounds with a `rekey_interval` of 120: the second request is written at 125. -/
def twoRounds : List (ℕ × Action) :=
  [(0, .serverNegotiate uuidCounting (Bytes.zeroed 32)), (1, .clientReadReq), (2, .clientFetchKey),
    (3, .serverReadAck), (3, .clientSetFreshOsk true), (4, .serverSetFreshOsk true),
    (125, .serverNegotiate uuidCounting (Bytes.zeroed 32)), (126, .clientReadReq),
    (127, .clientFetchKey), (128, .clientSetFreshOsk true)]

end Daisyway.Rekey
