import Daisyway.Crypto.Lockstep
import Daisyway.Server.ConnectionManager

/-! # The TCP server: connection tasks, their channel, and the manager

`DaisywayTcpServer::event_loop` runs a `ConnectionManager` that selects between the next
stream and the next notification. Each stream gets a task running one server loop, whose
`set_fresh_osk` sends `Osk(id, key, Fresh)` on the channel and whose end sends `Exit(id)`; a
task runs while the manager holds its handle. Peers are any TCP clients, and the channel is
unbounded, in order and never closed while the manager runs.

Whatever the peers do, the manager's OSK handler receives, from each of a rising sequence of
connections, a run of the first keys that connection's loop handed over. With honest peers
each run is what the peer handed to its own `set_fresh_osk`; and since the acknowledgement
is a constant byte, any peer that writes it takes over as the active connection.
-/

set_option autoImplicit false

namespace Daisyway.Rekey

/-- An await point of `DaisywayServerProtocol::event_loop`. -/
def Action.isServer : Action → Bool
  | .serverNegotiate _ _ | .serverReadAck | .serverSetFreshOsk _ | .serverFails => true
  | _ => false

/-- Whether the server's OSK handler returns `Err` at this await point. -/
def Action.serverSinkFails : Action → Bool
  | .serverSetFreshOsk ok => !ok
  | _ => false

/-- The key the server loop hands to `set_fresh_osk` at this await point. -/
def handedOver (d : Duplex) : Action → List Key
  | .serverSetFreshOsk _ =>
    match d.server with
    | .delivering osk => [osk]
    | _ => []
  | _ => []

section

variable {shake : Xof} {qkd : Uuid → Key} {serverParams clientParams : DaisywayProtocolParameters}
  {d d' : Duplex}

theorem step_serverOsks {a : Action} (h : step shake qkd serverParams clientParams d a = some d') :
    d'.serverOsks = d.serverOsks ++ handedOver d a := by
  cases a
  case serverNegotiate => obtain ⟨-, -, rfl⟩ := step_serverNegotiate h; simp [handedOver]
  case serverReadAck =>
    obtain ⟨-, _, _, _, _, -, -, rfl⟩ := step_serverReadAck h
    split_ifs <;> simp [handedOver]
  case serverSetFreshOsk =>
    obtain ⟨-, _, hs, rfl⟩ := step_serverSetFreshOsk h
    simp [handedOver, hs]
  case serverFails => obtain rfl := step_serverFails h; simp [handedOver]
  case clientReadReq => obtain ⟨-, -, -, rfl⟩ := step_clientReadReq h; simp [handedOver]
  case clientFetchKey => obtain ⟨-, _, _, -, rfl⟩ := step_clientFetchKey h; simp [handedOver]
  case clientSetFreshOsk => obtain ⟨-, _, -, rfl⟩ := step_clientSetFreshOsk h; simp [handedOver]
  case clientFails => obtain rfl := step_clientFails h; simp [handedOver]

/-- The server's keys are the client's, or the client's and the one the client is handing over. -/
theorem Config.serverOsks_prefix {K : List Key} (hc : Config shake qkd serverParams K d) :
    d.serverOsks <+: d.clientOsks ∨ ∃ k, d.client = .delivering k ∧ d.serverOsks = d.clientOsks ++ [k] := by
  cases hc
  all_goals first
    | exact .inl (List.prefix_refl _)
    | exact .inl (List.prefix_append _ _)
    | exact .inr ⟨_, rfl, rfl⟩

end

end Daisyway.Rekey

namespace Daisyway.TcpServer

open ConnectionManager Rekey

/-- A connection's task: its stream, with the server loop at one end and the peer at the
other, and whether `init_task` has sent `Exit`. -/
structure Task where
  duplex : Duplex
  exitSent : Bool

def Task.init : Task := ⟨Duplex.init, false⟩

/-- `DaisywayTcpServer::event_loop`: the manager, the task of each accepted connection by its
id, the notification channel, and the calls the manager has made on its OSK handler. -/
structure Server where
  manager : State
  tasks : List Task
  channel : List StreamEvent
  sink : List (Key × SetOskReason)

def Server.init : Server := ⟨State.new, [], [], []⟩

/-- Whether the manager holds connection `i`'s handle, so that its task still runs. -/
def tracked (m : State) (i : ℕ) : Bool :=
  m.activeConnection == some i || decide (i ∈ m.buddingConnections)

/-- What completes next. -/
inductive Event
  /-- `listener.accept()` wins the `select!`. -/
  | accept
  /-- `manager_notification_rx.recv()` wins the `select!`. -/
  | recv
  /-- An await point of connection `i`'s server loop, or of its peer's client loop. -/
  | conn (i : ℕ) (a : Action)
  /-- Connection `i`'s `init_task` sends `Exit` after its loop has returned. -/
  | exit (i : ℕ)
  /-- Connection `i`'s peer writes any bytes. -/
  | peerWrite (i : ℕ) (bytes : List UInt8)

section

variable (shake : Xof) (qkd : Uuid → Key) (serverParams clientParams : DaisywayProtocolParameters)

/-- One event; `none` where it is not enabled. -/
def Server.step (s : Server) : Event → Option Server
  | .accept =>
    (onAccept s.manager).map fun p => { s with manager := p.1, tasks := s.tasks ++ [Task.init] }
  | .recv =>
    match s.channel with
    | [] => none
    | e :: rest => (onEvent s.manager e).map fun p =>
      { s with manager := p.1, channel := rest, sink := s.sink ++ p.2.setOsk }
  | .conn i a =>
    match s.tasks[i]? with
    | none => none
    | some t =>
      if (a.isServer && !tracked s.manager i) || a.serverSinkFails then none
      else (Rekey.step shake qkd serverParams clientParams t.duplex a).map fun d =>
        { s with tasks := s.tasks.set i { t with duplex := d },
                 channel := s.channel ++ (handedOver t.duplex a).map fun k => .osk i k .fresh }
  | .exit i =>
    match s.tasks[i]? with
    | none => none
    | some t =>
      if tracked s.manager i && !t.duplex.serverAlive && !t.exitSent then
        some { s with tasks := s.tasks.set i { t with exitSent := true },
                      channel := s.channel ++ [.exit i] }
      else none
  | .peerWrite i bytes =>
    s.tasks[i]?.map fun t =>
      let d : Duplex := { t.duplex with toServer := t.duplex.toServer ++ bytes }
      { s with tasks := s.tasks.set i { t with duplex := d } }

def Server.run : Server → List Event → Option Server
  | s, [] => some s
  | s, e :: es =>
    (Server.step shake qkd serverParams clientParams s e).bind fun s' => Server.run s' es

end

/-- The keys connection `i`'s server loop has handed to `set_fresh_osk`. -/
def serverKeys (tasks : List Task) (i : ℕ) : List Key :=
  (tasks[i]?.map fun t => t.duplex.serverOsks).getD []

/-- The key an `Osk` notification of connection `i` carries. -/
def oskKeyOf (i : ℕ) : StreamEvent → Option Key
  | .osk c k _ => if c = i then some k else none
  | _ => none

/-- The keys of connection `i` waiting in the channel, in order. -/
def queuedKeys (i : ℕ) (l : List StreamEvent) : List Key := l.filterMap (oskKeyOf i)

@[simp] theorem queuedKeys_nil (i : ℕ) : queuedKeys i [] = [] := rfl

@[simp] theorem queuedKeys_append (i : ℕ) (l l' : List StreamEvent) :
    queuedKeys i (l ++ l') = queuedKeys i l ++ queuedKeys i l' := List.filterMap_append l l' _

@[simp] theorem queuedKeys_exit (i c : ℕ) (l : List StreamEvent) :
    queuedKeys i (.exit c :: l) = queuedKeys i l := rfl

@[simp] theorem queuedKeys_osk (i c : ℕ) (k : Key) (r : SetOskReason) (l : List StreamEvent) :
    queuedKeys i (.osk c k r :: l) = if c = i then k :: queuedKeys i l else queuedKeys i l := by
  by_cases h : c = i <;> simp [queuedKeys, oskKeyOf, h]

theorem queuedKeys_osks (i j : ℕ) (ks : List Key) :
    queuedKeys j (ks.map fun k => .osk i k .fresh) = if i = j then ks else [] := by
  induction ks with
  | nil => simp
  | cons k ks ih =>
    rw [List.map_cons, queuedKeys_osk, ih]
    by_cases h : i = j <;> simp [h]

theorem queuedKeys_eq_nil {n : ℕ} :
    ∀ {l : List StreamEvent}, (∀ e ∈ l, ∃ c < n, e = .exit c ∨ ∃ k, e = .osk c k .fresh) →
      queuedKeys n l = []
  | [], _ => rfl
  | e :: l, h => by
    obtain ⟨c, hc, rfl | ⟨k, rfl⟩⟩ := h e (List.mem_cons_self _ _) <;>
      simp [hc.ne, queuedKeys_eq_nil fun e he => h e (List.mem_cons_of_mem _ he)]

theorem exists_rest_pop {ks keys : List Key} {c j : ℕ} {k : Key} {r : SetOskReason}
    {l : List StreamEvent} (h : ∃ rest, ks ++ rest ++ queuedKeys j (.osk c k r :: l) = keys) :
    ∃ rest, ks ++ rest ++ queuedKeys j l = keys := by
  obtain ⟨rest, h⟩ := h
  by_cases hc : c = j
  · exact ⟨rest ++ [k], by simpa [hc] using h⟩
  · exact ⟨rest, by simpa [hc] using h⟩

@[simp] theorem serverKeys_append_init (tasks : List Task) (j : ℕ) :
    serverKeys (tasks ++ [Task.init]) j = serverKeys tasks j := by
  unfold serverKeys
  rcases lt_trichotomy j tasks.length with h | rfl | h
  · rw [List.getElem?_append_left h]
  · simp [Task.init, Duplex.init]
  · rw [List.getElem?_eq_none (by simp only [List.length_append, List.length_singleton]; omega),
      List.getElem?_eq_none (by omega)]

theorem serverKeys_length (tasks : List Task) : serverKeys tasks tasks.length = [] := by
  simp [serverKeys]

theorem serverKeys_set {tasks : List Task} {i : ℕ} {t : Task} (ht : tasks[i]? = some t)
    (t' : Task) (j : ℕ) :
    serverKeys (tasks.set i t') j = if i = j then t'.duplex.serverOsks else serverKeys tasks j := by
  have hi : i < tasks.length := (List.getElem?_eq_some_iff.mp ht).1
  unfold serverKeys
  rw [List.getElem?_set]
  split_ifs <;> simp

theorem serverKeys_of_getElem? {tasks : List Task} {i : ℕ} {t : Task} (ht : tasks[i]? = some t) :
    serverKeys tasks i = t.duplex.serverOsks := by
  simp [serverKeys, ht]

/-! ## What reaches the OSK handler -/

/-- `segs` lists, for each connection whose keys reached the OSK handler and in that order,
the keys that did. Those of a connection are the first it handed over, and the active
connection's are all it handed over but those still queued; a budding connection's keys are
all queued, and its id is above every listed one. -/
structure Forwards (s : Server) (segs : List (ℕ × List Key)) : Prop where
  manager : Invariant s.manager
  tasks_length : s.tasks.length = s.manager.nextConnectionId
  channel : ∀ e ∈ s.channel, ∃ c < s.manager.nextConnectionId, e = .exit c ∨ ∃ k, e = .osk c k .fresh
  sorted : (segs.map Prod.fst).Pairwise (· < ·)
  sink : s.sink = segs.flatMap fun p => p.2.map fun k => (k, SetOskReason.fresh)
  forwarded : ∀ p ∈ segs, p.2 ≠ [] ∧ p.1 < s.manager.nextConnectionId ∧
    ∃ rest, p.2 ++ rest ++ queuedKeys p.1 s.channel = serverKeys s.tasks p.1
  active : ∀ a, s.manager.activeConnection = some a →
    ∃ ks, segs.getLast? = some (a, ks) ∧ ks ++ queuedKeys a s.channel = serverKeys s.tasks a
  budding : ∀ b ∈ s.manager.buddingConnections,
    queuedKeys b s.channel = serverKeys s.tasks b ∧ ∀ p ∈ segs, p.1 < b

theorem Forwards.channel_tail {s : Server} {segs : List (ℕ × List Key)} (hf : Forwards s segs)
    {e : StreamEvent} {rest : List StreamEvent} (hch : s.channel = e :: rest) :
    ∀ x ∈ rest, ∃ c < s.manager.nextConnectionId, x = .exit c ∨ ∃ k, x = .osk c k .fresh :=
  fun x hx => hf.channel x (hch ▸ List.mem_cons_of_mem _ hx)

theorem forwards_init : Forwards Server.init [] :=
  ⟨invariant_new, rfl, by simp [Server.init], List.Pairwise.nil, rfl, by simp,
    by simp [Server.init, State.new], by simp [Server.init, State.new]⟩

section

variable {s s' : Server} {segs : List (ℕ × List Key)}

theorem Forwards.frame (hf : Forwards s segs) {new : List StreamEvent}
    (hm : s'.manager = s.manager) (hsink : s'.sink = s.sink)
    (hlen : s'.tasks.length = s.tasks.length) (hch : s'.channel = s.channel ++ new)
    (hnew : ∀ e ∈ new, ∃ c < s.manager.nextConnectionId, e = .exit c ∨ ∃ k, e = .osk c k .fresh)
    (hkeys : ∀ j, serverKeys s'.tasks j = serverKeys s.tasks j ++ queuedKeys j new) :
    Forwards s' segs := by
  obtain ⟨hinv, htl, hch0, hsorted, hs, hfw, hact, hbud⟩ := hf
  refine ⟨hm ▸ hinv, by rw [hlen, hm, htl], ?_, hsorted, hsink ▸ hs, fun p hp => ?_,
    fun a ha => ?_, fun b hb => ?_⟩
  · rw [hch, hm]
    intro e he
    rcases List.mem_append.mp he with he | he
    exacts [hch0 e he, hnew e he]
  · obtain ⟨hne, hlt, rest, heq⟩ := hfw p hp
    exact ⟨hne, hm ▸ hlt, rest, by
      rw [hch, queuedKeys_append, hkeys, ← heq]; simp only [List.append_assoc]⟩
  · obtain ⟨ks, hl, heq⟩ := hact a (hm ▸ ha)
    exact ⟨ks, hl, by rw [hch, queuedKeys_append, hkeys, ← heq, List.append_assoc]⟩
  · obtain ⟨heq, hlt⟩ := hbud b (hm ▸ hb)
    exact ⟨by rw [hch, queuedKeys_append, hkeys, heq], hlt⟩

theorem Forwards.accept (hf : Forwards s segs) {p : State × Option ℕ}
    (he : onAccept s.manager = some p) :
    Forwards { s with manager := p.1, tasks := s.tasks ++ [Task.init] } segs := by
  obtain ⟨m', p', hs, hnext, hact, hb⟩ := onAccept_spec s.manager
  obtain rfl := (Option.some.inj (hs.symm.trans he))
  have hmem : ∀ c ∈ m'.buddingConnections,
      c = s.manager.nextConnectionId ∨ c ∈ s.manager.buddingConnections := by
    rcases hb with ⟨-, -, hb⟩ | ⟨_, -, -, hb⟩ <;> intro c hc <;> rw [hb] at hc <;>
      simp only [Finset.mem_insert, Finset.mem_erase] at hc <;> tauto
  refine ⟨onAccept_invariant hf.manager hs, ?_, fun e he => ?_, hf.sorted, hf.sink,
    fun q hq => ?_, fun a ha => ?_, fun b hb => ?_⟩
  · simp [hnext, hf.tasks_length]
  · obtain ⟨c, hc, he⟩ := hf.channel e he
    exact ⟨c, by dsimp only; omega, he⟩
  · obtain ⟨hne, hlt, hrest⟩ := hf.forwarded q hq
    exact ⟨hne, by dsimp only; omega, by simpa using hrest⟩
  · simpa using hf.active a (hact ▸ ha)
  · rcases hmem b hb with rfl | hb
    · refine ⟨?_, fun q hq => (hf.forwarded q hq).2.1⟩
      rw [queuedKeys_eq_nil hf.channel, serverKeys_append_init, ← hf.tasks_length,
        serverKeys_length]
    · simpa using hf.budding b hb

theorem Forwards.recv_exit (hf : Forwards s segs) {c : ℕ} {rest : List StreamEvent}
    (hch : s.channel = .exit c :: rest) :
    Forwards { s with manager := onExit s.manager c, channel := rest } segs := by
  obtain ⟨hnext, hcase⟩ := onExit_spec s.manager c
  have hsub : ∀ b ∈ (onExit s.manager c).buddingConnections, b ∈ s.manager.buddingConnections := by
    rcases hcase with ⟨-, -, hb⟩ | ⟨-, -, hb⟩ <;> rw [hb] <;> intro b hb'
    exacts [hb', Finset.mem_of_mem_erase hb']
  have hact : ∀ a, (onExit s.manager c).activeConnection = some a →
      s.manager.activeConnection = some a := by
    rcases hcase with ⟨-, ha, -⟩ | ⟨-, ha, -⟩ <;> rw [ha] <;> intro a ha'
    exacts [(Option.some_ne_none a ha'.symm).elim, ha']
  refine ⟨onExit_invariant hf.manager c, by simp [hnext, hf.tasks_length], fun e he => ?_,
    hf.sorted, hf.sink, fun q hq => ?_, fun a ha => ?_, fun b hb => ?_⟩
  · simpa [hnext] using hf.channel e (by rw [hch]; exact List.mem_cons_of_mem _ he)
  · simpa [hch, hnext] using hf.forwarded q hq
  · simpa [hch] using hf.active a (hact a ha)
  · simpa [hch] using hf.budding b (hsub b hb)

theorem Forwards.recv_discard (hf : Forwards s segs) {c : ℕ} {k : Key} {rest : List StreamEvent}
    (hch : s.channel = .osk c k .fresh :: rest) (ha : s.manager.activeConnection ≠ some c)
    (hb : c ∉ s.manager.buddingConnections) :
    Forwards { s with channel := rest } segs := by
  refine ⟨hf.manager, hf.tasks_length, hf.channel_tail hch, hf.sorted, hf.sink, fun q hq => ?_,
    fun a ha' => ?_, fun b hb' => ?_⟩
  · obtain ⟨hne, hlt, hrest⟩ := hf.forwarded q hq
    exact ⟨hne, hlt, exists_rest_pop (hch ▸ hrest)⟩
  · obtain ⟨ks, hl, heq⟩ := hf.active a ha'
    have hac : c ≠ a := fun h => ha (h ▸ ha')
    exact ⟨ks, hl, by simpa [hch, hac] using heq⟩
  · have hbc : c ≠ b := fun h => hb (h ▸ hb')
    simpa [hch, hbc] using hf.budding b hb'

theorem Forwards.recv_active (hf : Forwards s segs) {c : ℕ} {k : Key} {rest : List StreamEvent}
    (hch : s.channel = .osk c k .fresh :: rest) (ha : s.manager.activeConnection = some c) :
    ∃ segs', Forwards { s with channel := rest, sink := s.sink ++ [(k, .fresh)] } segs' := by
  obtain ⟨ks, hl, heq⟩ := hf.active c ha
  have hsegs := List.dropLast_append_getLast? _ hl
  set init := segs.dropLast
  have hsorted := hf.sorted
  rw [← hsegs, List.map_append, List.pairwise_append] at hsorted
  have hlt : ∀ q ∈ init, q.1 < c := fun q hq => hsorted.2.2 q.1 (List.mem_map_of_mem _ hq) c
    (by simp)
  have hne : ∀ q ∈ init, c ≠ q.1 := fun q hq => (hlt q hq).ne'
  refine ⟨init ++ [(c, ks ++ [k])], hf.manager, hf.tasks_length, hf.channel_tail hch, ?_, ?_,
    fun q hq => ?_, fun a ha' => ?_, fun b hb => ?_⟩
  · simpa [List.pairwise_append] using hsorted
  · rw [hf.sink, ← hsegs]
    simp
  · rcases List.mem_append.mp hq with hq | hq
    · obtain ⟨hne', hlt', hrest⟩ := hf.forwarded q (hsegs ▸ List.mem_append_left _ hq)
      exact ⟨hne', hlt', exists_rest_pop (hch ▸ hrest)⟩
    · obtain rfl := List.mem_singleton.mp hq
      refine ⟨by simp, (hf.forwarded (c, ks) (hsegs ▸ by simp)).2.1, [], ?_⟩
      simpa [hch] using heq
  · obtain rfl : c = a := Option.some.inj (ha.symm.trans ha')
    exact ⟨ks ++ [k], by simp, by simpa [hch] using heq⟩
  · have hcb : c ≠ b := (hf.manager.active_lt_budding c ha b hb).ne
    obtain ⟨hq, hlt'⟩ := hf.budding b hb
    refine ⟨by simpa [hch, hcb] using hq, fun q hq' => ?_⟩
    rcases List.mem_append.mp hq' with hq' | hq'
    · exact hlt' q (hsegs ▸ List.mem_append_left _ hq')
    · obtain rfl := List.mem_singleton.mp hq'
      exact hf.manager.active_lt_budding c ha b hb

theorem Forwards.recv_promote (hf : Forwards s segs) {c : ℕ} {k : Key} {rest : List StreamEvent}
    (hch : s.channel = .osk c k .fresh :: rest) (hb : c ∈ s.manager.buddingConnections) :
    Forwards { s with
      manager := { s.manager with buddingConnections := s.manager.buddingConnections.filter (c < ·),
                                  activeConnection := some c },
      channel := rest, sink := s.sink ++ [(k, .fresh)] } (segs ++ [(c, [k])]) := by
  obtain ⟨hqc, hbelow⟩ := hf.budding c hb
  have hc : c < s.manager.nextConnectionId := hf.manager.budding_lt c hb
  refine ⟨⟨fun x hx => hf.manager.budding_lt x (Finset.mem_filter.mp hx).1, ?_, ?_,
      (Finset.card_filter_le _ _).trans hf.manager.card_le⟩,
    hf.tasks_length, hf.channel_tail hch, ?_, by simp [hf.sink], fun q hq => ?_, fun a ha => ?_,
    fun b hb' => ?_⟩
  · rintro a ⟨⟩; exact hc
  · rintro a ⟨⟩ x hx; exact (Finset.mem_filter.mp hx).2
  · rw [List.map_append, List.pairwise_append]
    refine ⟨hf.sorted, List.pairwise_singleton _ _, fun x hx y hy => ?_⟩
    obtain ⟨q, hq, rfl⟩ := List.mem_map.mp hx
    obtain rfl : y = c := by simpa using hy
    exact hbelow q hq
  · rcases List.mem_append.mp hq with hq | hq
    · obtain ⟨hne, hlt, hrest⟩ := hf.forwarded q hq
      exact ⟨hne, hlt, exists_rest_pop (hch ▸ hrest)⟩
    · obtain rfl := List.mem_singleton.mp hq
      exact ⟨by simp, hc, [], by simpa [hch] using hqc⟩
  · obtain rfl : c = a := Option.some.inj ha
    exact ⟨[k], by simp, by simpa [hch] using hqc⟩
  · obtain ⟨hb', hcb⟩ := Finset.mem_filter.mp hb'
    obtain ⟨hq', hlt'⟩ := hf.budding b hb'
    refine ⟨by simpa [hch, hcb.ne] using hq', fun q hq'' => ?_⟩
    rcases List.mem_append.mp hq'' with hq'' | hq''
    · exact hlt' q hq''
    · obtain rfl := List.mem_singleton.mp hq''
      exact hcb

theorem Forwards.recv (hf : Forwards s segs) {e : StreamEvent} {rest : List StreamEvent}
    (hch : s.channel = e :: rest) {p : State × Effects} (he : onEvent s.manager e = some p) :
    ∃ segs', Forwards { s with manager := p.1, channel := rest, sink := s.sink ++ p.2.setOsk } segs' := by
  obtain ⟨c, -, rfl | ⟨k, rfl⟩⟩ := hf.channel e (by rw [hch]; exact List.mem_cons_self _ _)
  · obtain rfl := (Option.some.inj he).symm
    exact ⟨segs, by simpa using hf.recv_exit hch⟩
  obtain rfl := (Option.some.inj he).symm
  rcases onOsk_cases s.manager c k .fresh with ⟨a, ha, hlt, hosk⟩ | ⟨ha, hosk⟩ | ⟨hgt, hosk⟩
  · rw [hosk]
    have hna : s.manager.activeConnection ≠ some c := fun h =>
      hlt.ne (Option.some.inj (h.symm.trans ha))
    have hnb : c ∉ s.manager.buddingConnections := fun hb =>
      (hf.manager.active_lt_budding a ha c hb).not_lt hlt
    exact ⟨segs, by simpa using hf.recv_discard hch hna hnb⟩
  · rw [hosk]
    exact hf.recv_active hch ha
  · rw [hosk]
    rcases onOskFromBudding_spec s.manager c k .fresh with ⟨hb, hfb⟩ | ⟨hb, hfb⟩ <;> rw [hfb]
    · exact ⟨_, hf.recv_promote hch hb⟩
    · exact ⟨segs, by simpa using hf.recv_discard hch (fun h => (hgt c h).false) hb⟩

theorem Forwards.step {shake : Xof} {qkd : Uuid → Key}
    {serverParams clientParams : DaisywayProtocolParameters} (hf : Forwards s segs) {e : Event}
    (h : Server.step shake qkd serverParams clientParams s e = some s') :
    ∃ segs', Forwards s' segs' := by
  cases e with
  | accept =>
    obtain ⟨p, hp, rfl⟩ := Option.map_eq_some'.mp h
    exact ⟨segs, hf.accept hp⟩
  | recv =>
    simp only [Server.step] at h
    split at h
    · cases h
    · obtain ⟨p, hp, rfl⟩ := Option.map_eq_some'.mp h
      exact hf.recv ‹_› hp
  | conn i a =>
    simp only [Server.step] at h
    split at h
    · cases h
    · next t ht =>
      split_ifs at h
      obtain ⟨d, hd, rfl⟩ := Option.map_eq_some'.mp h
      have hi : i < s.manager.nextConnectionId :=
        hf.tasks_length ▸ (List.getElem?_eq_some_iff.mp ht).1
      refine ⟨segs, hf.frame rfl rfl (List.length_set _ _ _) rfl ?_ fun j => ?_⟩
      · intro e he
        obtain ⟨k, -, rfl⟩ := List.mem_map.mp he
        exact ⟨i, hi, .inr ⟨k, rfl⟩⟩
      · rw [serverKeys_set ht, queuedKeys_osks]
        split_ifs with hij
        · subst hij
          rw [serverKeys_of_getElem? ht, step_serverOsks hd]
        · simp
  | exit i =>
    simp only [Server.step] at h
    split at h
    · cases h
    · next t ht =>
      split_ifs at h
      obtain rfl := (Option.some.inj h).symm
      have hi : i < s.manager.nextConnectionId :=
        hf.tasks_length ▸ (List.getElem?_eq_some_iff.mp ht).1
      refine ⟨segs, hf.frame rfl rfl (List.length_set _ _ _) rfl ?_ fun j => ?_⟩
      · exact fun e he => ⟨i, hi, .inl (List.mem_singleton.mp he)⟩
      · rw [serverKeys_set ht]
        split_ifs with hij
        · subst hij
          simp [serverKeys_of_getElem? ht]
        · simp
  | peerWrite i bytes =>
    obtain ⟨t, ht, rfl⟩ := Option.map_eq_some'.mp h
    refine ⟨segs, hf.frame rfl rfl (List.length_set _ _ _) (List.append_nil _).symm
      (by simp) fun j => ?_⟩
    rw [serverKeys_set ht]
    split_ifs with hij
    · subst hij
      simp [serverKeys_of_getElem? ht]
    · simp

theorem Forwards.run {shake : Xof} {qkd : Uuid → Key}
    {serverParams clientParams : DaisywayProtocolParameters} (hf : Forwards s segs)
    {evs : List Event} (h : Server.run shake qkd serverParams clientParams s evs = some s') :
    ∃ segs', Forwards s' segs' := by
  induction evs generalizing s segs with
  | nil => cases h; exact ⟨segs, hf⟩
  | cons e evs ih =>
    obtain ⟨s1, h1, h2⟩ := Option.bind_eq_some.mp h
    obtain ⟨segs1, hf1⟩ := hf.step h1
    exact ih hf1 h2

end

/-- Along every run of the TCP server, whatever its peers do, the manager's OSK handler is
called with fresh keys only: for each of a rising sequence of connections, a nonempty run of
the first keys that connection's server loop handed to `set_fresh_osk`, in order. Once the
channel is empty, the run of the active connection is every key its loop has handed over. -/
theorem run_forwarded (shake : Xof) (qkd : Uuid → Key)
    (serverParams clientParams : DaisywayProtocolParameters) {evs : List Event} {s : Server}
    (h : Server.run shake qkd serverParams clientParams Server.init evs = some s) :
    ∃ segs : List (ℕ × List Key), (segs.map Prod.fst).Pairwise (· < ·) ∧
      s.sink = segs.flatMap (fun p => p.2.map fun k => (k, SetOskReason.fresh)) ∧
      (∀ p ∈ segs, p.2 ≠ [] ∧ p.2 <+: serverKeys s.tasks p.1) ∧
      (s.channel = [] → ∀ a, s.manager.activeConnection = some a →
        ∃ ks, segs.getLast? = some (a, ks) ∧ ks = serverKeys s.tasks a) := by
  obtain ⟨segs, hf⟩ := forwards_init.run h
  refine ⟨segs, hf.sorted, hf.sink, fun p hp => ?_, fun hch a ha => ?_⟩
  · obtain ⟨hne, -, rest, heq⟩ := hf.forwarded p hp
    exact ⟨hne, ⟨rest ++ queuedKeys p.1 s.channel, by rw [← heq, List.append_assoc]⟩⟩
  · obtain ⟨ks, hl, heq⟩ := hf.active a ha
    exact ⟨ks, hl, by simpa [hch] using heq⟩

/-- The round `oneRound` on a first connection, and the manager taking its key. -/
def honestRound : List Event := .accept :: oneRound.map (.conn 0) ++ [.recv]

theorem run_forwarded_oneRound :
    ∃ s, Server.run zeroShake zeroQkd serverZero clientZero Server.init honestRound = some s ∧
      ∃ segs : List (ℕ × List Key), (segs.map Prod.fst).Pairwise (· < ·) ∧
        s.sink = segs.flatMap (fun p => p.2.map fun k => (k, SetOskReason.fresh)) ∧
        (∀ p ∈ segs, p.2 ≠ [] ∧ p.2 <+: serverKeys s.tasks p.1) ∧
        (s.channel = [] → ∀ a, s.manager.activeConnection = some a →
          ∃ ks, segs.getLast? = some (a, ks) ∧ ks = serverKeys s.tasks a) := by
  obtain ⟨s, hs⟩ : ∃ s,
      Server.run zeroShake zeroQkd serverZero clientZero Server.init honestRound = some s :=
    ⟨_, rfl⟩
  exact ⟨s, hs, run_forwarded _ _ _ _ hs⟩

/-! ## Honest peers -/

section

variable {shake : Xof} {qkd : Uuid → Key} {serverParams clientParams : DaisywayProtocolParameters}
  {s s' : Server}

/-- Every connection's two ends are in a joint configuration of the two loops. -/
def Honest (shake : Xof) (qkd : Uuid → Key) (serverParams : DaisywayProtocolParameters)
    (s : Server) : Prop :=
  ∀ t ∈ s.tasks, ∃ K, Config shake qkd serverParams K t.duplex

theorem honest_init : Honest shake qkd serverParams Server.init := by
  simp [Honest, Server.init]

theorem Honest.step (hm : Mirrored serverParams clientParams)
    (hh : Honest shake qkd serverParams s) {e : Event} (hw : ∀ i bytes, e ≠ .peerWrite i bytes)
    (h : Server.step shake qkd serverParams clientParams s e = some s') :
    Honest shake qkd serverParams s' := by
  cases e with
  | accept =>
    obtain ⟨p, -, rfl⟩ := Option.map_eq_some'.mp h
    intro t ht
    rcases List.mem_append.mp ht with ht | ht
    · exact hh t ht
    · obtain rfl := List.mem_singleton.mp ht
      exact ⟨[], .idle [] true true⟩
  | recv =>
    simp only [Server.step] at h
    split at h
    · cases h
    · obtain ⟨p, -, rfl⟩ := Option.map_eq_some'.mp h
      exact hh
  | conn i a =>
    simp only [Server.step] at h
    split at h
    · cases h
    · next t ht =>
      split_ifs at h
      obtain ⟨d, hd, rfl⟩ := Option.map_eq_some'.mp h
      intro t' ht'
      rcases List.mem_or_eq_of_mem_set ht' with ht' | rfl
      · exact hh t' ht'
      · obtain ⟨K, hK⟩ := hh t (List.mem_iff_getElem?.mpr ⟨_, ht⟩)
        exact ⟨_, hK.step hm hd⟩
  | exit i =>
    simp only [Server.step] at h
    split at h
    · cases h
    · next t ht =>
      split_ifs at h
      obtain rfl := (Option.some.inj h).symm
      intro t' ht'
      rcases List.mem_or_eq_of_mem_set ht' with ht' | rfl
      · exact hh t' ht'
      · exact hh t (List.mem_iff_getElem?.mpr ⟨_, ht⟩)
  | peerWrite i bytes => exact absurd rfl (hw i bytes)

theorem Honest.run (hm : Mirrored serverParams clientParams)
    (hh : Honest shake qkd serverParams s) {evs : List Event}
    (hw : ∀ i bytes, Event.peerWrite i bytes ∉ evs)
    (h : Server.run shake qkd serverParams clientParams s evs = some s') :
    Honest shake qkd serverParams s' := by
  induction evs generalizing s with
  | nil => cases h; exact hh
  | cons e evs ih =>
    obtain ⟨s1, h1, h2⟩ := Option.bind_eq_some.mp h
    refine ih (hh.step hm (fun i bytes he => hw i bytes (he ▸ List.mem_cons_self _ _)) h1)
      (fun i bytes hmem => hw i bytes (List.mem_cons_of_mem _ hmem)) h2

end

/-- Along every run of the TCP server whose peers all run the client loop with mirrored
parameters, each run of keys the OSK handler receives from a connection is a prefix of the
keys that connection's peer handed to its own `set_fresh_osk`, followed by the key it is
handing over, if any. -/
theorem run_forwarded_peers (shake : Xof) (qkd : Uuid → Key)
    {serverParams clientParams : DaisywayProtocolParameters} (hm : Mirrored serverParams clientParams)
    {evs : List Event} (hpeers : ∀ i bytes, Event.peerWrite i bytes ∉ evs) {s : Server}
    (h : Server.run shake qkd serverParams clientParams Server.init evs = some s) :
    ∃ segs : List (ℕ × List Key), (segs.map Prod.fst).Pairwise (· < ·) ∧
      s.sink = segs.flatMap (fun p => p.2.map fun k => (k, SetOskReason.fresh)) ∧
      ∀ p ∈ segs, p.2 ≠ [] ∧ ∃ t ∈ s.tasks[p.1]?, p.2 <+: t.duplex.clientOsks ∨
        ∃ k, t.duplex.client = .delivering k ∧ p.2 <+: t.duplex.clientOsks ++ [k] := by
  obtain ⟨segs, hf⟩ := forwards_init.run h
  have hh := honest_init.run hm hpeers h
  refine ⟨segs, hf.sorted, hf.sink, fun p hp => ?_⟩
  obtain ⟨hne, hlt, rest, heq⟩ := hf.forwarded p hp
  obtain ⟨t, ht⟩ : ∃ t, s.tasks[p.1]? = some t :=
    ⟨_, List.getElem?_eq_getElem (hf.tasks_length ▸ hlt)⟩
  have hpre : p.2 <+: t.duplex.serverOsks :=
    ⟨rest ++ queuedKeys p.1 s.channel, by rw [← serverKeys_of_getElem? ht, ← heq, List.append_assoc]⟩
  obtain ⟨K, hK⟩ := hh t (List.mem_iff_getElem?.mpr ⟨_, ht⟩)
  refine ⟨hne, t, ht, ?_⟩
  rcases hK.serverOsks_prefix with hs | ⟨k, hk, hs⟩
  · exact .inl (hpre.trans hs)
  · exact .inr ⟨k, hk, hs ▸ hpre⟩

theorem run_forwarded_peers_oneRound :
    ∃ s, Server.run zeroShake zeroQkd serverZero clientZero Server.init honestRound = some s ∧
      ∃ segs : List (ℕ × List Key), (segs.map Prod.fst).Pairwise (· < ·) ∧
        s.sink = segs.flatMap (fun p => p.2.map fun k => (k, SetOskReason.fresh)) ∧
        ∀ p ∈ segs, p.2 ≠ [] ∧ ∃ t ∈ s.tasks[p.1]?, p.2 <+: t.duplex.clientOsks ∨
          ∃ k, t.duplex.client = .delivering k ∧ p.2 <+: t.duplex.clientOsks ++ [k] := by
  obtain ⟨s, hs⟩ : ∃ s,
      Server.run zeroShake zeroQkd serverZero clientZero Server.init honestRound = some s :=
    ⟨_, rfl⟩
  exact ⟨s, hs, run_forwarded_peers _ _ mirrored_zero (by simp [honestRound, oneRound]) hs⟩

section

variable {shake : Xof} {qkd : Uuid → Key} {serverParams clientParams : DaisywayProtocolParameters}

/-- A new connection whose peer writes the acknowledgement byte once the request is out puts a
key of its own on the channel, behind what was there; the manager has only accepted it. -/
theorem run_acceptAck {s : Server} {segs : List (ℕ × List Key)} (hf : Forwards s segs)
    (id : Uuid) (nonce : Nonce) :
    ∃ s5, Server.run shake qkd serverParams clientParams s
        [.accept, .conn s.manager.nextConnectionId (.serverNegotiate id nonce),
          .peerWrite s.manager.nextConnectionId [rekeyAck.dummyData],
          .conn s.manager.nextConnectionId .serverReadAck,
          .conn s.manager.nextConnectionId (.serverSetFreshOsk true)] = some s5 ∧
      Invariant s5.manager ∧ s.manager.nextConnectionId ∈ s5.manager.buddingConnections ∧
      s5.manager.nextConnectionId = s.manager.nextConnectionId + 1 ∧
      s5.channel = s.channel ++ [.osk s.manager.nextConnectionId
        (deriveDaisywayKey shake serverParams nonce ⟨id, qkd id⟩) .fresh] ∧ s5.sink = s.sink := by
  obtain ⟨m, p, hacc, hnext, -, hb⟩ := onAccept_spec s.manager
  have hn : s.tasks.length ∈ m.buddingConnections := by
    rw [hf.tasks_length]; rcases hb with ⟨-, -, hb⟩ | ⟨_, -, -, hb⟩ <;> simp [hb]
  have hack : (RekeyAck.mk rekeyAck.dummyData).validate = .ok () :=
    (RekeyAck.validate_ok_iff _).mpr rfl
  rw [← hf.tasks_length] at hnext ⊢
  refine ⟨⟨m, s.tasks ++ [⟨⟨.fetching, .awaitingReq, rekeyReqBytes ⟨id, qkd id⟩ nonce, [],
      [deriveDaisywayKey shake serverParams nonce ⟨id, qkd id⟩], [], true, true⟩, false⟩],
    s.channel ++ [.osk s.tasks.length (deriveDaisywayKey shake serverParams nonce ⟨id, qkd id⟩) .fresh],
    s.sink⟩, ?_, onAccept_invariant hf.manager hacc, hn, hnext, rfl, rfl⟩
  simp only [Server.run, Server.step, Task.init, Duplex.init, hacc, Option.map_some',
    Action.isServer, tracked, Bool.not_or, Bool.true_and, Action.serverSinkFails, Bool.or_false,
    Bool.and_eq_true, Bool.not_eq_eq_eq_not, Bool.not_true, beq_eq_false_iff_ne, ne_eq,
    decide_eq_false_iff_not, handedOver, List.map_nil, List.append_nil, step, Option.bind_some,
    Option.some_bind, List.length_append, List.length_singleton, Nat.lt_add_one,
    List.getElem?_eq_getElem, List.getElem_concat_length, hn, not_true_eq_false, and_false,
    ↓reduceIte, le_refl, List.set_append_right, Nat.sub_self, List.set_cons_zero, List.nil_append,
    hack, List.map_cons]

theorem Server.run_append (s : Server) (l l' : List Event) :
    Server.run shake qkd serverParams clientParams s (l ++ l') =
      (Server.run shake qkd serverParams clientParams s l).bind fun s' =>
        Server.run shake qkd serverParams clientParams s' l' := by
  induction l generalizing s with
  | nil => rfl
  | cons e l ih =>
    simp only [List.cons_append, Server.run, Option.bind_assoc]
    exact congrArg _ (funext ih)

theorem onEvent_keeps_budding {m : State} {n c : ℕ} (hn : n ∈ m.buddingConnections) (hc : c < n)
    {e : StreamEvent} (he : e = .exit c ∨ ∃ k r, e = .osk c k r) :
    ∃ p, onEvent m e = some p ∧ n ∈ p.1.buddingConnections ∧
      p.1.nextConnectionId = m.nextConnectionId := by
  rcases he with rfl | ⟨k, r, rfl⟩
  · refine ⟨_, rfl, ?_, (onExit_spec m c).1⟩
    rcases (onExit_spec m c).2 with ⟨-, -, hb⟩ | ⟨-, -, hb⟩ <;> rw [hb]
    · exact hn
    · exact Finset.mem_erase.mpr ⟨hc.ne', hn⟩
  · refine ⟨_, rfl, ?_⟩
    rcases onOsk_cases m c k r with ⟨-, -, -, hosk⟩ | ⟨-, hosk⟩ | ⟨-, hosk⟩ <;> rw [hosk]
    · exact ⟨hn, rfl⟩
    · exact ⟨hn, rfl⟩
    · rcases onOskFromBudding_spec m c k r with ⟨-, hfb⟩ | ⟨-, hfb⟩ <;> rw [hfb]
      · exact ⟨Finset.mem_filter.mpr ⟨hn, hc⟩, rfl⟩
      · exact ⟨hn, rfl⟩

theorem run_drain {n : ℕ} (rest : List StreamEvent) :
    ∀ (old : List StreamEvent) (s : Server), Invariant s.manager →
      n ∈ s.manager.buddingConnections → s.manager.nextConnectionId = n + 1 →
      (∀ e ∈ old, ∃ c < n, e = .exit c ∨ ∃ k, e = .osk c k .fresh) → s.channel = old ++ rest →
      ∃ s', Server.run shake qkd serverParams clientParams s (List.replicate old.length .recv) =
          some s' ∧ s'.channel = rest ∧ Invariant s'.manager ∧
        n ∈ s'.manager.buddingConnections ∧ s'.manager.nextConnectionId = n + 1
  | [], s, hinv, hn, hnext, _, hch => ⟨s, rfl, by simpa using hch, hinv, hn, hnext⟩
  | e :: old, s, hinv, hn, hnext, hold, hch => by
    obtain ⟨c, hc, he⟩ := hold e (List.mem_cons_self _ _)
    obtain ⟨⟨m', eff⟩, hp, hn', hnext'⟩ :=
      onEvent_keeps_budding hn hc (he.imp_right fun ⟨k, hk⟩ => ⟨k, _, hk⟩)
    obtain ⟨s', hrun, hrest⟩ := run_drain rest old
      { s with manager := m', channel := old ++ rest, sink := s.sink ++ eff.setOsk }
      (onEvent_invariant hinv hp) hn' (hnext'.trans hnext)
      (fun e he => hold e (List.mem_cons_of_mem _ he)) rfl
    refine ⟨s', ?_, hrest⟩
    simp only [List.length_cons, List.replicate_succ, Server.run, Server.step, hch,
      List.cons_append, hp, Option.map_some', Option.some_bind]
    exact hrun

theorem onEvent_promote_newest {m : State} {n : ℕ} (hinv : Invariant m)
    (hn : n ∈ m.buddingConnections) (hnext : m.nextConnectionId = n + 1) (k : Key) :
    ∃ m', onEvent m (.osk n k .fresh) = some (m', { setOsk := [(k, .fresh)] }) ∧
      m'.activeConnection = some n ∧ ∀ i < n, tracked m' i = false := by
  rcases onOsk_cases m n k .fresh with ⟨a, ha, hlt, -⟩ | ⟨ha, -⟩ | ⟨-, hosk⟩
  · exact absurd (hinv.active_lt_budding a ha n hn) (lt_asymm hlt)
  · exact absurd (hinv.active_lt_budding n ha n hn) (lt_irrefl n)
  rcases onOskFromBudding_spec m n k .fresh with ⟨-, hfb⟩ | ⟨hb, -⟩
  · refine ⟨{ m with
        buddingConnections := m.buddingConnections.filter (n < ·)
        activeConnection := some n }, by simp only [onEvent, hosk, hfb], rfl, fun i hi => ?_⟩
    have hb : ∀ x ∈ m.buddingConnections, x < n + 1 := hnext ▸ hinv.budding_lt
    have hni : n ≠ i := hi.ne'
    simp only [tracked, Finset.mem_filter, Bool.or_eq_false_iff, decide_eq_false_iff_not, not_and]
    exact ⟨by simpa using hni, fun hx hlt => absurd (hb i hx) (by omega)⟩
  · exact absurd hn hb

end

/-- The acknowledgement is the constant byte of `REKEY_ACK`, so from any state the server
reaches, a peer that connects and writes that byte once the request is out takes over: once
the manager has worked through the channel, the new connection is the active one, the OSK
handler's last call is that round's key, and every earlier connection's task has been
aborted. -/
theorem run_anyPeer_takesOver (shake : Xof) (qkd : Uuid → Key)
    (serverParams clientParams : DaisywayProtocolParameters) {evs : List Event} {s : Server}
    (h : Server.run shake qkd serverParams clientParams Server.init evs = some s)
    (id : Uuid) (nonce : Nonce) :
    ∃ s', Server.run shake qkd serverParams clientParams s
        ([.accept, .conn s.manager.nextConnectionId (.serverNegotiate id nonce),
          .peerWrite s.manager.nextConnectionId [rekeyAck.dummyData],
          .conn s.manager.nextConnectionId .serverReadAck,
          .conn s.manager.nextConnectionId (.serverSetFreshOsk true)] ++
          List.replicate (s.channel.length + 1) .recv) = some s' ∧
      s'.manager.activeConnection = some s.manager.nextConnectionId ∧
      s'.sink.getLast? = some (deriveDaisywayKey shake serverParams nonce ⟨id, qkd id⟩, .fresh) ∧
      ∀ i < s.manager.nextConnectionId, tracked s'.manager i = false := by
  obtain ⟨segs, hf⟩ := forwards_init.run h
  obtain ⟨s5, h5, hinv, hn, hnext, hch, -⟩ := run_acceptAck hf id nonce
  obtain ⟨s6, h6, hch6, hinv6, hn6, hnext6⟩ := run_drain _ s.channel s5 hinv hn hnext hf.channel hch
  obtain ⟨m', hm', hact, htr⟩ := onEvent_promote_newest hinv6 hn6 hnext6
    (deriveDaisywayKey shake serverParams nonce ⟨id, qkd id⟩)
  refine ⟨{ s6 with
      manager := m'
      channel := []
      sink := s6.sink ++ [(deriveDaisywayKey shake serverParams nonce ⟨id, qkd id⟩, .fresh)] },
    ?_, hact, by simp, htr⟩
  rw [Server.run_append, h5, Option.some_bind, List.replicate_succ', Server.run_append, h6,
    Option.some_bind]
  simp only [Server.run, Server.step, hch6, hm', Option.map_some', Option.bind_some]

/-- After the honest round above, a second peer takes over with key id `uuidCounting` and the
all-zero nonce. -/
theorem run_anyPeer_takesOver_afterRound :
    ∃ s, Server.run zeroShake zeroQkd serverZero clientZero Server.init honestRound = some s ∧
      ∃ s', Server.run zeroShake zeroQkd serverZero clientZero s
          ([.accept, .conn s.manager.nextConnectionId (.serverNegotiate uuidCounting (Bytes.zeroed 32)),
            .peerWrite s.manager.nextConnectionId [rekeyAck.dummyData],
            .conn s.manager.nextConnectionId .serverReadAck,
            .conn s.manager.nextConnectionId (.serverSetFreshOsk true)] ++
            List.replicate (s.channel.length + 1) .recv) = some s' ∧
        s'.manager.activeConnection = some s.manager.nextConnectionId ∧
        s'.sink.getLast? = some (deriveDaisywayKey zeroShake serverZero (Bytes.zeroed 32)
          ⟨uuidCounting, Bytes.zeroed keyLength⟩, .fresh) ∧
        ∀ i < s.manager.nextConnectionId, tracked s'.manager i = false := by
  obtain ⟨s, hs⟩ : ∃ s,
      Server.run zeroShake zeroQkd serverZero clientZero Server.init honestRound = some s :=
    ⟨_, rfl⟩
  exact ⟨s, hs, run_anyPeer_takesOver _ _ _ _ hs uuidCounting (Bytes.zeroed 32)⟩

end Daisyway.TcpServer
