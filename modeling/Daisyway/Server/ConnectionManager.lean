import Daisyway.Crypto.Basics
import Mathlib.Data.Finset.Max
import Mathlib.Data.Finset.Card

/-! # The server's connection manager

`ConnectionManager` as a state machine over its three bookkeeping fields. A
task handle matters only in that dropping it aborts the task, so
`budding_connections` is kept as its key set and `active_connection` as its
id; the abort of a task shows as the removal of its id. `ConnectionId = usize`
is `ℕ`: the counter stays below `usize::MAX` for fewer accepts than that. What
an event visibly does is recorded as `Effects`: the `set_osk` calls it makes on the deadman and
the id `on_accept` names in its pruning log line.
-/

set_option autoImplicit false

namespace Daisyway.ConnectionManager

def maxBuddingConnections : ℕ := 2000

structure State where
  nextConnectionId : ℕ
  activeConnection : Option ℕ
  buddingConnections : Finset ℕ

def State.new : State := ⟨0, none, ∅⟩

/-- `StreamEvent`; the manager reads nothing of an accepted stream. -/
inductive StreamEvent
  | accept
  | exit (connectionId : ℕ)
  | osk (connectionId : ℕ) (key : Key) (reason : SetOskReason)
deriving DecidableEq

structure Effects where
  setOsk : List (Key × SetOskReason) := []
  pruned : Option ℕ := none

/-- `BTreeMap::pop_first` on the key set. -/
def popFirst (m : Finset ℕ) : Option (ℕ × Finset ℕ) :=
  if h : m.Nonempty then some (m.min' h, m.erase (m.min' h)) else none

/-- `BTreeMap::split_off`: the map keeps the keys below `k` and returns the rest. -/
def splitOff (m : Finset ℕ) (k : ℕ) :
    Finset ℕ × Finset ℕ :=
  (m.filter (· < k), m.filter (k ≤ ·))

def allocateConnectionId (s : State) : ℕ × State :=
  (s.nextConnectionId, { s with nextConnectionId := s.nextConnectionId + 1 })

/-- `ConnectionManager::on_accept`; `none` where `pop_first().expect` panics. -/
def onAccept (s : State) : Option (State × Option ℕ) :=
  let (connectionId, s) := allocateConnectionId s
  if maxBuddingConnections ≤ s.buddingConnections.card then
    (popFirst s.buddingConnections).map fun (prunedId, budding) =>
      ({ s with buddingConnections := insert connectionId budding }, some prunedId)
  else some ({ s with buddingConnections := insert connectionId s.buddingConnections }, none)

def onExit (s : State) (connId : ℕ) : State :=
  if some connId = s.activeConnection then { s with activeConnection := none }
  else if connId ∈ s.buddingConnections then
    { s with buddingConnections := s.buddingConnections.erase connId }
  else s

def onOskFromBudding (s : State) (newActiveId : ℕ) (key : Key) (reason : SetOskReason) :
    State × List (Key × SetOskReason) :=
  if newActiveId ∈ s.buddingConnections then
    let budding := s.buddingConnections.erase newActiveId
    let (_removed, kept) := splitOff budding newActiveId
    ({ s with buddingConnections := kept, activeConnection := some newActiveId }, [(key, reason)])
  else (s, [])

/-- `ConnectionManager::on_osk`: no active connection counts as `Greater`. -/
def onOsk (s : State) (connId : ℕ) (key : Key) (reason : SetOskReason) :
    State × List (Key × SetOskReason) :=
  match (s.activeConnection.map fun active => compare connId active).getD .gt with
  | .lt => (s, [])
  | .eq => (s, [(key, reason)])
  | .gt => onOskFromBudding s connId key reason

def onEvent (s : State) : StreamEvent → Option (State × Effects)
  | .accept => (onAccept s).map fun (s', p) => (s', { pruned := p })
  | .exit c => some (onExit s c, { setOsk := [] })
  | .osk c key reason => some ((onOsk s c key reason).1, { setOsk := (onOsk s c key reason).2 })

/-- The states `on_event` reaches from `ConnectionManager::new`, whatever ids the events name. -/
inductive Reachable : State → Prop
  | new : Reachable State.new
  | step {s s' : State} {e : StreamEvent} {eff : Effects} :
      Reachable s → onEvent s e = some (s', eff) → Reachable s'

/-! ## One lemma per operation -/

variable {s s' : State} {c : ℕ} {key : Key} {reason : SetOskReason}

theorem popFirst_of_nonempty {m : Finset ℕ} (h : m.Nonempty) :
    popFirst m = some (m.min' h, m.erase (m.min' h)) := dif_pos h

theorem onAccept_spec (s : State) :
    ∃ s' pruned, onAccept s = some (s', pruned) ∧
      s'.nextConnectionId = s.nextConnectionId + 1 ∧ s'.activeConnection = s.activeConnection ∧
      ((s.buddingConnections.card < maxBuddingConnections ∧ pruned = none ∧
          s'.buddingConnections = insert s.nextConnectionId s.buddingConnections) ∨
        ∃ h : s.buddingConnections.Nonempty, maxBuddingConnections ≤ s.buddingConnections.card ∧
          pruned = some (s.buddingConnections.min' h) ∧
          s'.buddingConnections =
            insert s.nextConnectionId (s.buddingConnections.erase (s.buddingConnections.min' h))) := by
  by_cases hfull : maxBuddingConnections ≤ s.buddingConnections.card
  · have h : s.buddingConnections.Nonempty :=
      Finset.card_pos.mp (lt_of_lt_of_le (by decide) hfull)
    simp only [onAccept, allocateConnectionId, if_pos hfull, popFirst_of_nonempty h]
    exact ⟨_, _, rfl, rfl, rfl, .inr ⟨h, hfull, rfl, rfl⟩⟩
  · simp only [onAccept, allocateConnectionId, if_neg hfull]
    exact ⟨_, _, rfl, rfl, rfl, .inl ⟨not_le.mp hfull, rfl, rfl⟩⟩

theorem onExit_spec (s : State) (c : ℕ) :
    (onExit s c).nextConnectionId = s.nextConnectionId ∧
      ((s.activeConnection = some c ∧ (onExit s c).activeConnection = none ∧
          (onExit s c).buddingConnections = s.buddingConnections) ∨
        (s.activeConnection ≠ some c ∧ (onExit s c).activeConnection = s.activeConnection ∧
          (onExit s c).buddingConnections = s.buddingConnections.erase c)) := by
  unfold onExit
  by_cases ha : some c = s.activeConnection
  · simp [ha]
  · have ha' : s.activeConnection ≠ some c := Ne.symm ha
    by_cases hb : c ∈ s.buddingConnections
    · simp [ha, hb, ha']
    · simp [ha, hb, ha', Finset.erase_eq_of_not_mem hb]

theorem onOskFromBudding_spec (s : State) (c : ℕ) (key : Key) (reason : SetOskReason) :
    (c ∈ s.buddingConnections ∧ onOskFromBudding s c key reason =
        ({ s with buddingConnections := s.buddingConnections.filter (c < ·),
                  activeConnection := some c }, [(key, reason)])) ∨
      (c ∉ s.buddingConnections ∧ onOskFromBudding s c key reason = (s, [])) := by
  unfold onOskFromBudding splitOff
  by_cases hb : c ∈ s.buddingConnections
  · have hkept : (s.buddingConnections.erase c).filter (c ≤ ·) =
        s.buddingConnections.filter (c < ·) := by
      ext x
      simp only [Finset.mem_filter, Finset.mem_erase]
      exact ⟨fun ⟨⟨hne, hm⟩, hle⟩ => ⟨hm, lt_of_le_of_ne hle (Ne.symm hne)⟩,
        fun ⟨hm, hlt⟩ => ⟨⟨hlt.ne', hm⟩, hlt.le⟩⟩
    exact .inl ⟨hb, by simp only [if_pos hb, hkept]⟩
  · exact .inr ⟨hb, if_neg hb⟩

/-- The three ways `on_osk` classifies an event against the active id. -/
theorem onOsk_cases (s : State) (c : ℕ) (key : Key) (reason : SetOskReason) :
    (∃ a, s.activeConnection = some a ∧ c < a ∧ onOsk s c key reason = (s, [])) ∨
      (s.activeConnection = some c ∧ onOsk s c key reason = (s, [(key, reason)])) ∨
      ((∀ a, s.activeConnection = some a → a < c) ∧
        onOsk s c key reason = onOskFromBudding s c key reason) := by
  unfold onOsk
  cases ha : s.activeConnection with
  | none => exact .inr (.inr ⟨by simp, rfl⟩)
  | some a =>
    rcases lt_trichotomy c a with h | rfl | h
    · exact .inl ⟨a, rfl, h, by simp [compare_lt_iff_lt.mpr h]⟩
    · exact .inr (.inl ⟨rfl, by simp [Nat.compare_eq_eq.mpr (rfl : c = c)]⟩)
    · exact .inr (.inr ⟨by simpa using h, by simp [compare_gt_iff_gt.mpr h]⟩)

/-! ## The representation invariant -/

/-- Every id in use is below the counter, the active id is below every budding id,
and the budding set keeps its bound. -/
structure Invariant (s : State) : Prop where
  budding_lt : ∀ c ∈ s.buddingConnections, c < s.nextConnectionId
  active_lt : ∀ a, s.activeConnection = some a → a < s.nextConnectionId
  active_lt_budding : ∀ a, s.activeConnection = some a → ∀ c ∈ s.buddingConnections, a < c
  card_le : s.buddingConnections.card ≤ maxBuddingConnections

theorem invariant_new : Invariant State.new :=
  ⟨by simp [State.new], by simp [State.new], by simp [State.new], by simp [State.new]⟩

theorem Invariant.of_subset (h : Invariant s) (hnext : s'.nextConnectionId = s.nextConnectionId)
    (hact : ∀ a, s'.activeConnection = some a → s.activeConnection = some a)
    (hb : s'.buddingConnections ⊆ s.buddingConnections) : Invariant s' :=
  ⟨fun c hc => hnext ▸ h.budding_lt c (hb hc), fun a ha => hnext ▸ h.active_lt a (hact a ha),
    fun a ha c hc => h.active_lt_budding a (hact a ha) c (hb hc),
    (Finset.card_le_card hb).trans h.card_le⟩

theorem onAccept_invariant {p : Option ℕ} (h : Invariant s)
    (he : onAccept s = some (s', p)) : Invariant s' := by
  obtain ⟨s'', p', hs, hnext, hact, hb⟩ := onAccept_spec s
  obtain ⟨rfl, rfl⟩ := Prod.mk.inj (Option.some.inj (hs.symm.trans he))
  have hmem : ∀ c ∈ s''.buddingConnections, c = s.nextConnectionId ∨ c ∈ s.buddingConnections := by
    rcases hb with ⟨-, -, hb⟩ | ⟨_, -, -, hb⟩ <;> intro c hc <;> rw [hb] at hc <;>
      simp only [Finset.mem_insert, Finset.mem_erase] at hc <;> tauto
  refine ⟨fun c hc => ?_, fun a ha => ?_, fun a ha c hc => ?_, ?_⟩
  · rcases hmem c hc with rfl | hc
    · omega
    · have := h.budding_lt c hc; omega
  · have := h.active_lt a (hact ▸ ha)
    omega
  · rcases hmem c hc with rfl | hc
    · exact h.active_lt a (hact ▸ ha)
    · exact h.active_lt_budding a (hact ▸ ha) c hc
  · rcases hb with ⟨hlt, -, hb⟩ | ⟨hne, -, -, hb⟩ <;> rw [hb]
    · exact (Finset.card_insert_le _ _).trans hlt
    · have := Finset.card_erase_of_mem (Finset.min'_mem _ hne)
      have := Finset.card_insert_le s.nextConnectionId
        (s.buddingConnections.erase (s.buddingConnections.min' hne))
      have := h.card_le
      have := Finset.card_pos.mpr hne
      omega

theorem onExit_invariant (h : Invariant s) (c : ℕ) : Invariant (onExit s c) := by
  obtain ⟨hnext, ⟨-, hact, hb⟩ | ⟨-, hact, hb⟩⟩ := onExit_spec s c
  · exact h.of_subset hnext (by simp [hact]) (hb ▸ subset_rfl)
  · exact h.of_subset hnext (fun a ha => hact ▸ ha) (hb ▸ Finset.erase_subset c _)

theorem onOsk_invariant (h : Invariant s) (c : ℕ) (key : Key) (reason : SetOskReason) :
    Invariant (onOsk s c key reason).1 := by
  rcases onOsk_cases s c key reason with ⟨-, -, -, he⟩ | ⟨-, he⟩ | ⟨-, he⟩ <;> rw [he]
  · exact h
  · exact h
  rcases onOskFromBudding_spec s c key reason with ⟨hc, he⟩ | ⟨-, he⟩ <;> rw [he]
  · refine ⟨fun x hx => h.budding_lt x (Finset.mem_filter.mp hx).1, ?_, ?_, ?_⟩
    · rintro a ⟨⟩; exact h.budding_lt c hc
    · rintro a ⟨⟩ x hx; exact (Finset.mem_filter.mp hx).2
    · exact (Finset.card_filter_le _ _).trans h.card_le
  · exact h

theorem onEvent_invariant {e : StreamEvent} {eff : Effects} (h : Invariant s)
    (he : onEvent s e = some (s', eff)) : Invariant s' := by
  cases e with
  | accept =>
    obtain ⟨⟨s'', p⟩, hs, hp⟩ := Option.map_eq_some'.mp he
    cases hp
    exact onAccept_invariant h hs
  | exit c => cases he; exact onExit_invariant h c
  | osk c key reason => cases he; exact onOsk_invariant h c key reason

theorem Reachable.invariant (h : Reachable s) : Invariant s := by
  induction h with
  | new => exact invariant_new
  | step _ he ih => exact onEvent_invariant ih he

/-- In every reachable state an accept succeeds: it hands out an id no connection holds,
bumps the counter, and on a full budding set evicts exactly its smallest id. -/
theorem Reachable.onAccept_fresh (hr : Reachable s) :
    ∃ s' pruned, onAccept s = some (s', pruned) ∧
      s.nextConnectionId ∉ s.buddingConnections ∧
      s.activeConnection ≠ some s.nextConnectionId ∧
      s'.nextConnectionId = s.nextConnectionId + 1 ∧
      (maxBuddingConnections ≤ s.buddingConnections.card →
        ∃ m ∈ s.buddingConnections, (∀ c ∈ s.buddingConnections, m ≤ c) ∧ pruned = some m ∧
          s'.buddingConnections = insert s.nextConnectionId (s.buddingConnections.erase m)) := by
  have h := hr.invariant
  obtain ⟨s', p, hs, hnext, -, hb⟩ := onAccept_spec s
  refine ⟨s', p, hs, fun hm => (h.budding_lt _ hm).false, fun ha => (h.active_lt _ ha).false,
    hnext, fun hfull => ?_⟩
  rcases hb with ⟨hlt, -⟩ | ⟨hne, -, hp, hb⟩
  · omega
  · exact ⟨_, Finset.min'_mem _ hne, fun c hc => Finset.min'_le _ c hc, hp, hb⟩

/-! ## Runs and the ids they hand out -/

def acceptCount (es : List StreamEvent) : ℕ := es.count .accept

@[simp] theorem acceptCount_nil : acceptCount [] = 0 := rfl

@[simp] theorem acceptCount_cons (e : StreamEvent) (es : List StreamEvent) :
    acceptCount (e :: es) = acceptCount es + if e = .accept then 1 else 0 := by
  simp only [acceptCount, List.count_cons, beq_iff_eq]

/-- `on_event` over a list of events, with the ids `allocate_connection_id` returned, in
order; `none` where an event panics. -/
def runAllocated : State → List StreamEvent → Option (State × List ℕ)
  | s, [] => some (s, [])
  | s, e :: es => (onEvent s e).bind fun r =>
      (runAllocated r.1 es).map fun t =>
        (t.1, if e = .accept then (allocateConnectionId s).1 :: t.2 else t.2)

theorem onOsk_next (s : State) (c : ℕ) (key : Key) (reason : SetOskReason) :
    (onOsk s c key reason).1.nextConnectionId = s.nextConnectionId := by
  rcases onOsk_cases s c key reason with ⟨-, -, -, he⟩ | ⟨-, he⟩ | ⟨-, he⟩ <;> rw [he]
  rcases onOskFromBudding_spec s c key reason with ⟨-, he⟩ | ⟨-, he⟩ <;> rw [he]

/-- Every event succeeds, and only an accept moves the counter, by one. -/
theorem onEvent_spec (s : State) (e : StreamEvent) :
    ∃ s' eff, onEvent s e = some (s', eff) ∧
      s'.nextConnectionId = s.nextConnectionId + if e = .accept then 1 else 0 := by
  cases e with
  | accept =>
    obtain ⟨s', p, hs, hnext, -⟩ := onAccept_spec s
    exact ⟨s', { pruned := p }, by rw [onEvent, hs]; rfl, by rw [hnext, if_pos rfl]⟩
  | exit c => exact ⟨_, _, rfl, by simp [(onExit_spec s c).1]⟩
  | osk c key reason => exact ⟨_, _, rfl, by simp [onOsk_next]⟩

/-- A run from any state succeeds and hands out the counter's next values, one per accept. -/
theorem runAllocated_spec (s : State) (es : List StreamEvent) :
    ∃ t, runAllocated s es = some (t, List.range' s.nextConnectionId (acceptCount es)) ∧
      t.nextConnectionId = s.nextConnectionId + acceptCount es := by
  induction es generalizing s with
  | nil => exact ⟨s, rfl, rfl⟩
  | cons e es ih =>
    obtain ⟨s', eff, he, hnext⟩ := onEvent_spec s e
    obtain ⟨t, ht, htn⟩ := ih s'
    refine ⟨t, ?_, by rw [htn, hnext, acceptCount_cons]; omega⟩
    rw [runAllocated, he, Option.some_bind, ht, Option.map_some', acceptCount_cons, hnext]
    by_cases h : e = .accept <;> simp [h, allocateConnectionId, List.range'_succ]

theorem runAllocated_reachable {s t : State} {es : List StreamEvent} {ids : List ℕ}
    (hs : Reachable s) (hr : runAllocated s es = some (t, ids)) : Reachable t := by
  induction es generalizing s ids with
  | nil => cases hr; exact hs
  | cons e es ih =>
    obtain ⟨s', eff, he, -⟩ := onEvent_spec s e
    rw [runAllocated, he, Option.some_bind] at hr
    obtain ⟨⟨t', ids'⟩, hr', heq⟩ := Option.map_eq_some'.mp hr
    cases heq
    exact ih (.step hs he) hr'

/-- Every run from `ConnectionManager::new` keeps the invariant and hands out the ids
`0, 1, …`, one per accept and none twice. In the state it reaches an accept succeeds, with
an id no connection holds and none handed out before, and on a full budding set evicts
exactly its smallest id. -/
theorem reachable_representationInvariant (es : List StreamEvent) :
    ∃ s ids, runAllocated State.new es = some (s, ids) ∧
      ids = List.range (acceptCount es) ∧ ids.Nodup ∧ s.nextConnectionId ∉ ids ∧
      Invariant s ∧ ∃ s' pruned, onAccept s = some (s', pruned) ∧
        s.nextConnectionId ∉ s.buddingConnections ∧
        s.activeConnection ≠ some s.nextConnectionId ∧
        s'.nextConnectionId = s.nextConnectionId + 1 ∧
        (maxBuddingConnections ≤ s.buddingConnections.card →
          ∃ m ∈ s.buddingConnections, (∀ c ∈ s.buddingConnections, m ≤ c) ∧ pruned = some m ∧
            s'.buddingConnections = insert s.nextConnectionId (s.buddingConnections.erase m)) := by
  obtain ⟨s, hr, hnext⟩ := runAllocated_spec State.new es
  have hs := runAllocated_reachable Reachable.new hr
  refine ⟨s, _, hr, (List.range_eq_range' _).symm, List.nodup_range' _ _, ?_, hs.invariant,
    hs.onAccept_fresh⟩
  rw [hnext, List.mem_range']
  omega

example : (runAllocated State.new [.accept, .accept, .exit 0, .accept]).map Prod.snd =
    some [0, 1, 2] := by
  decide

end Daisyway.ConnectionManager
