import Daisyway.Server.TcpServer

/-! # One client against the server

`DaisywayTcpClient::event_loop` connects to the server, runs one `DaisywayClientProtocol` loop
on the stream until it returns, sleeps two seconds and connects again. Its connections are
streams the server accepts one after another: the client opens the next only once its loop on
the last one has returned, and writes nothing but what its loop writes. Every loop hands its
keys to the same OSK handler, the client's deadman, so the keys the client hands to
`set_fresh_osk` are those of its connections, one connection after another. A key counts as
handed over once `set_fresh_osk` is called with it, whether or not the call succeeds.

Along every run of the two, the server's manager passes its OSK handler only keys the client
handed over, in the same order, except the one the client is handing over. When the channel
is drained, the client's current connection is the active one, and both its ends have handed
over the same number of keys, the last key the manager passed on is the last one the client
handed over.
-/

set_option autoImplicit false

namespace Daisyway.Rekey

/-- The key the client loop hands to `set_fresh_osk` at this await point. -/
def clientHandedOver (d : Duplex) : Action → List Key
  | .clientSetFreshOsk _ =>
    match d.client with
    | .delivering osk => [osk]
    | _ => []
  | _ => []

/-- The key a client loop is about to hand to `set_fresh_osk`. -/
def ClientPhase.handing : ClientPhase → List Key
  | .delivering osk => [osk]
  | _ => []

section

variable {shake : Xof} {qkd : Uuid → Key} {serverParams clientParams : DaisywayProtocolParameters}
  {d d' : Duplex} {a : Action}

theorem step_clientOsks (h : step shake qkd serverParams clientParams d a = some d') :
    d'.clientOsks = d.clientOsks ++ clientHandedOver d a := by
  cases a
  case serverNegotiate => obtain ⟨-, -, rfl⟩ := step_serverNegotiate h; simp [clientHandedOver]
  case serverReadAck =>
    obtain ⟨-, _, _, _, _, -, -, rfl⟩ := step_serverReadAck h
    split_ifs <;> simp [clientHandedOver]
  case serverSetFreshOsk =>
    obtain ⟨-, _, -, rfl⟩ := step_serverSetFreshOsk h
    simp [clientHandedOver]
  case serverFails => obtain rfl := step_serverFails h; simp [clientHandedOver]
  case clientReadReq => obtain ⟨-, -, -, rfl⟩ := step_clientReadReq h; simp [clientHandedOver]
  case clientFetchKey => obtain ⟨-, _, _, -, rfl⟩ := step_clientFetchKey h; simp [clientHandedOver]
  case clientSetFreshOsk =>
    obtain ⟨-, _, hc, rfl⟩ := step_clientSetFreshOsk h
    simp [clientHandedOver, hc]
  case clientFails => obtain rfl := step_clientFails h; simp [clientHandedOver]

theorem step_client_of_isServer (ha : a.isServer = true)
    (h : step shake qkd serverParams clientParams d a = some d') :
    d'.client = d.client ∧ d'.clientOsks = d.clientOsks ∧ d'.clientAlive = d.clientAlive := by
  cases a
  case serverNegotiate => obtain ⟨-, -, rfl⟩ := step_serverNegotiate h; exact ⟨rfl, rfl, rfl⟩
  case serverReadAck =>
    obtain ⟨-, _, _, _, _, -, -, rfl⟩ := step_serverReadAck h
    split_ifs <;> exact ⟨rfl, rfl, rfl⟩
  case serverSetFreshOsk => obtain ⟨-, _, -, rfl⟩ := step_serverSetFreshOsk h; exact ⟨rfl, rfl, rfl⟩
  case serverFails => obtain rfl := step_serverFails h; exact ⟨rfl, rfl, rfl⟩
  all_goals cases ha

theorem step_clientAlive (ha : a.isServer = false)
    (h : step shake qkd serverParams clientParams d a = some d') : d.clientAlive = true := by
  cases a
  case clientReadReq => exact (step_clientReadReq h).1
  case clientFetchKey => exact (step_clientFetchKey h).1
  case clientSetFreshOsk => exact (step_clientSetFreshOsk h).1
  case clientFails =>
    simp only [step] at h
    split at h <;> first | assumption | cases h
  all_goals cases ha

theorem step_handing_of_dead (hinv : d.clientAlive = false → d.client.handing = [])
    (h : step shake qkd serverParams clientParams d a = some d') :
    d'.clientAlive = false → d'.client.handing = [] := by
  cases ha : a.isServer
  · have halive := step_clientAlive ha h
    cases a
    case clientReadReq =>
      obtain ⟨-, -, -, rfl⟩ := step_clientReadReq h
      exact fun hd => absurd (halive.symm.trans hd) Bool.noConfusion
    case clientFetchKey =>
      obtain ⟨-, _, _, -, rfl⟩ := step_clientFetchKey h
      exact fun hd => absurd (halive.symm.trans hd) Bool.noConfusion
    case clientSetFreshOsk =>
      obtain ⟨-, _, -, rfl⟩ := step_clientSetFreshOsk h
      exact fun _ => rfl
    case clientFails =>
      simp only [step] at h
      split at h
      all_goals first
        | (obtain rfl := (Option.some.inj h).symm
           exact fun _ => by simp_all [ClientPhase.handing])
        | cases h
    all_goals cases ha
  · obtain ⟨hc, -, hal⟩ := step_client_of_isServer ha h
    rw [hc, hal]
    exact hinv

end

end Daisyway.Rekey

namespace Daisyway.TcpClient

open ConnectionManager Rekey TcpServer

/-- The server and its one client: the server, whose tasks hold the client's connections, and
the keys the client's loops have handed to its `set_fresh_osk`. -/
structure Peers where
  server : Server
  clientHanded : List Key

def Peers.init : Peers := ⟨Server.init, []⟩

section

variable (shake : Xof) (qkd : Uuid → Key) (serverParams clientParams : DaisywayProtocolParameters)

/-- One event; the client connects only once its loop on every earlier connection has
returned, and writes only through its loop. -/
def Peers.step (p : Peers) : Event → Option Peers
  | .accept =>
    if p.server.tasks.all fun t => !t.duplex.clientAlive then
      (Server.step shake qkd serverParams clientParams p.server .accept).map fun s =>
        { p with server := s }
    else none
  | .recv =>
    (Server.step shake qkd serverParams clientParams p.server .recv).map fun s =>
      { p with server := s }
  | .conn i a =>
    (Server.step shake qkd serverParams clientParams p.server (.conn i a)).map fun s =>
      { server := s,
        clientHanded := p.clientHanded ++
          (p.server.tasks[i]?.map fun t => clientHandedOver t.duplex a).getD [] }
  | .exit i =>
    (Server.step shake qkd serverParams clientParams p.server (.exit i)).map fun s =>
      { p with server := s }
  | .peerWrite _ _ => none

def Peers.run : Peers → List Event → Option Peers
  | p, [] => some p
  | p, e :: es =>
    (Peers.step shake qkd serverParams clientParams p e).bind fun p' => Peers.run p' es

end

/-! ## Lists of connections -/

theorem flatMap_set_of_eq {β : Type} (f : Task → List β) :
    ∀ {l : List Task} {i : ℕ} {x y : Task}, l[i]? = some x → f y = f x →
      (l.set i y).flatMap f = l.flatMap f
  | [], _, _, _, hx, _ => by cases hx
  | _ :: _, 0, _, _, hx, hf => by
    simp only [List.getElem?_cons_zero, Option.some.injEq] at hx
    subst hx
    simp [hf]
  | _ :: l, i + 1, x, _, hx, hf => by
    have hx' : l[i]? = some x := by simpa using hx
    simp [flatMap_set_of_eq f hx' hf]

theorem flatMap_sublist {β : Type} (f : Task → List β) (tasks : List Task) :
    ∀ (segs : List (ℕ × List β)) (n : ℕ), (∀ q ∈ segs, n ≤ q.1) →
      (segs.map Prod.fst).Pairwise (· < ·) → (∀ q ∈ segs, ∃ t ∈ tasks[q.1]?, q.2.Sublist (f t)) →
      (segs.flatMap Prod.snd).Sublist ((tasks.drop n).flatMap f)
  | [], _, _, _, _ => List.nil_sublist _
  | q :: segs, n, hn, hsorted, hsub => by
    rw [List.map_cons, List.pairwise_cons] at hsorted
    obtain ⟨t, ht, hqt⟩ := hsub q (List.mem_cons_self _ _)
    have hq : q.1 < tasks.length := (List.getElem?_eq_some_iff.mp (Option.mem_def.mp ht)).1
    have hrest := flatMap_sublist f tasks segs (q.1 + 1)
      (fun r hr => hsorted.1 r.1 (List.mem_map_of_mem _ hr)) hsorted.2
      (fun r hr => hsub r (List.mem_cons_of_mem _ hr))
    have hdrop : tasks.drop n = (tasks.drop n).take (q.1 - n) ++ t :: tasks.drop (q.1 + 1) := by
      have hmid : (tasks.drop n).drop (q.1 - n) = t :: tasks.drop (q.1 + 1) := by
        rw [List.drop_drop, Nat.add_sub_cancel' (hn q (List.mem_cons_self _ _)),
          List.drop_eq_getElem_cons hq, List.getElem_eq_iff.mpr (Option.mem_def.mp ht)]
      rw [← hmid, List.take_append_drop]
    rw [hdrop, List.flatMap_append, List.flatMap_cons, List.flatMap_cons]
    exact (hqt.append hrest).trans (List.sublist_append_right _ _)

/-! ## The client's connections, one after another -/

/-- The keys the client handed over are its connections' keys in order; every connection but
the last has its client loop returned, and a returned loop hands nothing over. -/
structure Sequential (p : Peers) : Prop where
  handed : p.clientHanded = p.server.tasks.flatMap fun t => t.duplex.clientOsks
  earlier : ∀ j, j + 1 < p.server.tasks.length → ∀ t ∈ p.server.tasks[j]?,
    t.duplex.clientAlive = false
  handing : ∀ t ∈ p.server.tasks, t.duplex.clientAlive = false → t.duplex.client.handing = []

theorem sequential_init : Sequential Peers.init :=
  ⟨rfl, by simp [Peers.init, Server.init], by simp [Peers.init, Server.init]⟩

section

variable {shake : Xof} {qkd : Uuid → Key} {serverParams clientParams : DaisywayProtocolParameters}
  {p p' : Peers}

theorem Peers.step_server {e : Event}
    (h : Peers.step shake qkd serverParams clientParams p e = some p') :
    Server.step shake qkd serverParams clientParams p.server e = some p'.server ∧
      ∀ i bytes, e ≠ .peerWrite i bytes := by
  cases e with
  | accept =>
    simp only [Peers.step] at h
    split_ifs at h
    obtain ⟨s, hs, rfl⟩ := Option.map_eq_some'.mp h
    exact ⟨hs, fun _ _ => Event.noConfusion⟩
  | recv =>
    obtain ⟨s, hs, rfl⟩ := Option.map_eq_some'.mp h
    exact ⟨hs, fun _ _ => Event.noConfusion⟩
  | conn i a =>
    obtain ⟨s, hs, rfl⟩ := Option.map_eq_some'.mp h
    exact ⟨hs, fun _ _ => Event.noConfusion⟩
  | exit i =>
    obtain ⟨s, hs, rfl⟩ := Option.map_eq_some'.mp h
    exact ⟨hs, fun _ _ => Event.noConfusion⟩
  | peerWrite i bytes => cases h

theorem Sequential.set (hq : Sequential p) {i : ℕ} {t t' : Task}
    (ht : p.server.tasks[i]? = some t) {new : List Key}
    (htasks : p'.server.tasks = p.server.tasks.set i t')
    (hsink : p'.clientHanded = p.clientHanded ++ new)
    (hkeys : t'.duplex.clientOsks = t.duplex.clientOsks ++ new)
    (hlast : i + 1 < p.server.tasks.length → new = [] ∧ t'.duplex.clientAlive = false)
    (hhand : t'.duplex.clientAlive = false → t'.duplex.client.handing = []) :
    Sequential p' := by
  have hi : i < p.server.tasks.length := (List.getElem?_eq_some_iff.mp ht).1
  refine ⟨?_, fun j hj u hu => ?_, fun u hu => ?_⟩
  · rw [htasks, hsink, hq.handed]
    by_cases hl : i + 1 < p.server.tasks.length
    · obtain ⟨rfl, -⟩ := hlast hl
      rw [List.append_nil, flatMap_set_of_eq _ ht (by rw [hkeys, List.append_nil])]
    · obtain ⟨init, last, hconcat⟩ := (List.eq_nil_or_concat p.server.tasks).resolve_left
        fun h0 => by simp [h0] at hi
      rw [List.concat_eq_append] at hconcat
      have hilen : i = init.length := by
        have := congrArg List.length hconcat
        simp only [List.length_append, List.length_singleton] at this
        omega
      have hlast' : t = last := by
        rw [hconcat, hilen, List.getElem?_concat_length] at ht
        exact (Option.some.inj ht).symm
      subst hlast'
      rw [hconcat, hilen, List.set_append_right _ _ (le_refl _), Nat.sub_self, List.set_cons_zero]
      simp [hkeys]
  · rw [htasks, List.length_set] at hj
    rw [htasks, List.getElem?_set] at hu
    split_ifs at hu with hij
    · subst hij
      obtain rfl := Option.some.inj (Option.mem_def.mp hu)
      exact (hlast hj).2
    · exact hq.earlier j hj u hu
  · rw [htasks] at hu
    rcases List.mem_or_eq_of_mem_set hu with hu | rfl
    · exact hq.handing u hu
    · exact hhand

theorem Sequential.step (hq : Sequential p) {e : Event}
    (h : Peers.step shake qkd serverParams clientParams p e = some p') : Sequential p' := by
  cases e with
  | accept =>
    simp only [Peers.step] at h
    split_ifs at h with hall
    obtain ⟨s, hs, rfl⟩ := Option.map_eq_some'.mp h
    obtain ⟨q, -, rfl⟩ := Option.map_eq_some'.mp hs
    have hdead : ∀ t ∈ p.server.tasks, t.duplex.clientAlive = false := by
      simpa using hall
    refine ⟨by simpa [Task.init, Duplex.init] using hq.handed, fun j hj u hu => ?_,
      fun u hu => ?_⟩
    · simp only [List.length_append, List.length_singleton] at hj
      rw [List.getElem?_append_left (by omega)] at hu
      exact hdead u (List.mem_iff_getElem?.mpr ⟨j, hu⟩)
    · rcases List.mem_append.mp hu with hu | hu
      · exact hq.handing u hu
      · obtain rfl := List.mem_singleton.mp hu
        exact fun h => Bool.noConfusion h
  | recv =>
    obtain ⟨s, hs, rfl⟩ := Option.map_eq_some'.mp h
    simp only [Server.step] at hs
    split at hs
    · cases hs
    · obtain ⟨q, -, rfl⟩ := Option.map_eq_some'.mp hs
      exact ⟨hq.handed, hq.earlier, hq.handing⟩
  | conn i a =>
    obtain ⟨s, hs, rfl⟩ := Option.map_eq_some'.mp h
    simp only [Server.step] at hs
    split at hs
    · cases hs
    · next t ht =>
      split_ifs at hs
      obtain ⟨d, hd, rfl⟩ := Option.map_eq_some'.mp hs
      have hhand : t.duplex.clientAlive = false → t.duplex.client.handing = [] :=
        hq.handing t (List.mem_iff_getElem?.mpr ⟨i, ht⟩)
      refine hq.set ht rfl (by simp [ht]) (step_clientOsks hd) (fun hl => ?_)
        (step_handing_of_dead hhand hd)
      have hdead := hq.earlier i hl t ht
      cases ha : a.isServer
      · exact absurd ((step_clientAlive ha hd).symm.trans hdead) Bool.noConfusion
      · obtain ⟨-, hosks, hal⟩ := step_client_of_isServer ha hd
        have := step_clientOsks hd
        rw [hosks] at this
        exact ⟨List.append_right_eq_self.mp this.symm, hal.trans hdead⟩
  | exit i =>
    obtain ⟨s, hs, rfl⟩ := Option.map_eq_some'.mp h
    simp only [Server.step] at hs
    split at hs
    · cases hs
    · next t ht =>
      split_ifs at hs
      obtain rfl := (Option.some.inj hs).symm
      refine hq.set ht rfl (List.append_nil _).symm (List.append_nil _).symm
        (fun hl => ⟨rfl, hq.earlier i hl t ht⟩)
        (hq.handing t (List.mem_iff_getElem?.mpr ⟨i, ht⟩))
  | peerWrite i bytes => cases h

/-- Along a run of the two peers, the server's invariants and the client's hold. -/
theorem Peers.run_invariants (hm : Mirrored serverParams clientParams) {segs : List (ℕ × List Key)}
    (hf : Forwards p.server segs) (hh : Honest shake qkd serverParams p.server)
    (hq : Sequential p) {evs : List Event}
    (h : Peers.run shake qkd serverParams clientParams p evs = some p') :
    (∃ segs', Forwards p'.server segs') ∧ Honest shake qkd serverParams p'.server ∧
      Sequential p' := by
  induction evs generalizing p segs with
  | nil => cases h; exact ⟨⟨segs, hf⟩, hh, hq⟩
  | cons e evs ih =>
    obtain ⟨p1, h1, h2⟩ := Option.bind_eq_some.mp h
    obtain ⟨hs, hw⟩ := Peers.step_server h1
    obtain ⟨segs1, hf1⟩ := hf.step hs
    exact ih hf1 (hh.step hm hw hs) (hq.step h1) h2

end

section

variable {shake : Xof} {qkd : Uuid → Key} {serverParams clientParams : DaisywayProtocolParameters}

theorem forwarded_prefix {s : Server} {segs : List (ℕ × List Key)} (hf : Forwards s segs)
    (hh : Honest shake qkd serverParams s) {q : ℕ × List Key} (hq : q ∈ segs) :
    ∃ t ∈ s.tasks[q.1]?, q.2 <+: t.duplex.serverOsks ∧
      t.duplex.serverOsks <+: t.duplex.clientOsks ++ t.duplex.client.handing := by
  obtain ⟨-, hlt, rest, heq⟩ := hf.forwarded q hq
  obtain ⟨t, ht⟩ : ∃ t, s.tasks[q.1]? = some t :=
    ⟨_, List.getElem?_eq_getElem (hf.tasks_length ▸ hlt)⟩
  refine ⟨t, ht, ⟨rest ++ queuedKeys q.1 s.channel, ?_⟩, ?_⟩
  · rw [← serverKeys_of_getElem? ht, ← heq, List.append_assoc]
  obtain ⟨K, hK⟩ := hh t (List.mem_iff_getElem?.mpr ⟨_, ht⟩)
  rcases hK.serverOsks_prefix with hs | ⟨k, hk, hs⟩
  · exact hs.trans (List.prefix_append _ _)
  · rw [hk, hs]
    exact List.prefix_refl _

end

/-- Along every run of the server and one client running `DaisywayTcpClient::event_loop` with
mirrored parameters, the keys the server's manager passed to its OSK handler are a sublist of
those the client handed to `set_fresh_osk`, followed by the key the client is handing over on
its current connection: the server passes on no key the client has not handed over, and none
in another order. -/
theorem run_clientHanded_sublist (shake : Xof) (qkd : Uuid → Key)
    {serverParams clientParams : DaisywayProtocolParameters} (hm : Mirrored serverParams clientParams)
    {evs : List Event} {p : Peers}
    (h : Peers.run shake qkd serverParams clientParams Peers.init evs = some p) :
    (p.server.sink.map Prod.fst).Sublist
      (p.clientHanded ++ (p.server.tasks.getLast?.map fun t => t.duplex.client.handing).getD []) := by
  obtain ⟨⟨segs, hf⟩, hh, hq⟩ :=
    Peers.run_invariants hm forwards_init honest_init sequential_init h
  have hsink : p.server.sink.map Prod.fst = segs.flatMap Prod.snd := by
    rw [hf.sink, List.map_flatMap]
    simp [Function.comp_def]
  have hsub := flatMap_sublist (fun t => t.duplex.clientOsks ++ t.duplex.client.handing)
    p.server.tasks segs 0 (fun _ _ => Nat.zero_le _) hf.sorted fun q hq' => by
      obtain ⟨t, ht, h1, h2⟩ := forwarded_prefix hf hh hq'
      exact ⟨t, ht, (h1.trans h2).sublist⟩
  have hall : (p.server.tasks.drop 0).flatMap
      (fun t => t.duplex.clientOsks ++ t.duplex.client.handing) =
      p.clientHanded ++ (p.server.tasks.getLast?.map fun t => t.duplex.client.handing).getD [] := by
    rw [List.drop_zero, hq.handed]
    obtain h0 | ⟨init, last, hconcat⟩ := List.eq_nil_or_concat p.server.tasks
    · simp [h0]
    rw [List.concat_eq_append] at hconcat
    have hinit : ∀ t ∈ init, t.duplex.clientOsks ++ t.duplex.client.handing = t.duplex.clientOsks :=
      fun t ht => by
        obtain ⟨j, hj⟩ := List.mem_iff_getElem?.mp ht
        have hjl : j < init.length := (List.getElem?_eq_some_iff.mp hj).1
        rw [hq.handing t (hconcat ▸ List.mem_append_left _ ht), List.append_nil]
        refine hq.earlier j (by rw [hconcat]; simp; omega) t ?_
        rw [hconcat, List.getElem?_append_left hjl]
        exact hj
    rw [hconcat, List.flatMap_append, List.flatMap_append, List.getLast?_concat,
      List.flatMap_congr hinit]
    simp
  rw [hsink, ← hall]
  exact hsub

theorem run_clientHanded_sublist_oneRound :
    ∃ p, Peers.run zeroShake zeroQkd serverZero clientZero Peers.init honestRound = some p ∧
      (p.server.sink.map Prod.fst).Sublist
        (p.clientHanded ++ (p.server.tasks.getLast?.map fun t => t.duplex.client.handing).getD []) := by
  obtain ⟨p, hp⟩ : ∃ p,
      Peers.run zeroShake zeroQkd serverZero clientZero Peers.init honestRound = some p :=
    ⟨_, rfl⟩
  exact ⟨p, hp, run_clientHanded_sublist _ _ mirrored_zero hp⟩

/-- When the channel is drained, the client's current connection is the active one and both
its ends have handed over the same number of keys, the last key the server's manager passed on
is the last key the client handed over. -/
theorem run_lastKey_agree (shake : Xof) (qkd : Uuid → Key)
    {serverParams clientParams : DaisywayProtocolParameters} (hm : Mirrored serverParams clientParams)
    {evs : List Event} {p : Peers}
    (h : Peers.run shake qkd serverParams clientParams Peers.init evs = some p)
    (hch : p.server.channel = [])
    (ha : p.server.manager.activeConnection = some (p.server.tasks.length - 1))
    (hsame : ∀ t ∈ p.server.tasks.getLast?,
      t.duplex.serverOsks.length = t.duplex.clientOsks.length) :
    p.server.sink.getLast?.map Prod.fst = p.clientHanded.getLast? := by
  obtain ⟨⟨segs, hf⟩, hh, hq⟩ :=
    Peers.run_invariants hm forwards_init honest_init sequential_init h
  obtain ⟨ks, hl, heq⟩ := hf.active _ ha
  rw [hch, queuedKeys_nil, List.append_nil] at heq
  have hne : ks ≠ [] := (hf.forwarded _ (List.mem_of_mem_getLast? hl)).1
  have hlt := hf.manager.active_lt _ ha
  obtain h0 | ⟨init, last, hconcat⟩ := List.eq_nil_or_concat p.server.tasks
  · rw [← hf.tasks_length, h0] at hlt
    exact absurd hlt (Nat.lt_irrefl 0)
  rw [List.concat_eq_append] at hconcat
  have hidx : p.server.tasks.length - 1 = init.length := by simp [hconcat]
  have hlast : p.server.tasks[init.length]? = some last := by
    rw [hconcat, List.getElem?_concat_length]
  rw [hidx, serverKeys_of_getElem? hlast] at heq
  have hclient : last.duplex.clientOsks = ks := by
    obtain ⟨K, hK⟩ := hh last (hconcat ▸ List.mem_append_right _ (List.mem_singleton_self _))
    have hlen := hsame last (by rw [hconcat, List.getLast?_concat]; rfl)
    rcases hK.serverOsks_prefix with hs | ⟨k, -, hs⟩
    · rw [heq, hs.eq_of_length hlen]
    · rw [hs, List.length_append, List.length_singleton] at hlen
      omega
  have hsegs := List.dropLast_append_getLast? _ hl
  rw [hf.sink, ← hsegs, hq.handed, hconcat, List.flatMap_append, List.flatMap_append,
    List.flatMap_singleton, List.flatMap_singleton, hclient]
  obtain ⟨init', x, hks⟩ := (List.eq_nil_or_concat ks).resolve_left hne
  rw [List.concat_eq_append] at hks
  subst hks
  simp

/-- The round above: the channel is drained, connection `0` is active and both its ends have
handed over one key. -/
theorem run_lastKey_agree_oneRound :
    ∃ p, Peers.run zeroShake zeroQkd serverZero clientZero Peers.init honestRound = some p ∧
        p.server.channel = [] ∧
        p.server.manager.activeConnection = some (p.server.tasks.length - 1) ∧
        (∀ t ∈ p.server.tasks.getLast?,
          t.duplex.serverOsks.length = t.duplex.clientOsks.length) ∧
        p.server.sink.getLast?.map Prod.fst = p.clientHanded.getLast? := by
  set p := (Peers.run zeroShake zeroQkd serverZero clientZero Peers.init honestRound).getD
    Peers.init
  have hrun : Peers.run zeroShake zeroQkd serverZero clientZero Peers.init honestRound = some p :=
    rfl
  have hch : p.server.channel = [] := rfl
  have ha : p.server.manager.activeConnection = some (p.server.tasks.length - 1) := rfl
  have hsame : ∀ t ∈ p.server.tasks.getLast?,
      t.duplex.serverOsks.length = t.duplex.clientOsks.length := fun t ht => by
    obtain rfl := Option.some.inj ((Option.mem_def.mp ht).symm.trans rfl)
    rfl
  exact ⟨p, hrun, hch, ha, hsame, run_lastKey_agree _ _ mirrored_zero hrun hch ha hsame⟩

end Daisyway.TcpClient
