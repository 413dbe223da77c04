import Daisyway.Server.ConnectionManager

/-! # Supersession: which OSK events reach the deadman

The manager runs over a list of events from `ConnectionManager::new`, keeping
each event's effects beside it. The history of a prefix (the accepts, the ids
that exited, the ids pruned, the ids whose OSK was forwarded) determines the
manager's state, and with it whether the next OSK event is forwarded.
-/

set_option autoImplicit false

namespace Daisyway.ConnectionManager

/-- One event of a run: `on_event` on the state reached so far, its effects
appended to the trace. -/
def stepTrace (acc : Option (State × List Effects)) (e : StreamEvent) :
    Option (State × List Effects) :=
  acc.bind fun (s, effs) => (onEvent s e).map fun (s', eff) => (s', effs ++ [eff])

/-- `on_event` over a list of events, with the effects of each event in order. -/
def runTrace (s : State) (es : List StreamEvent) : Option (State × List Effects) :=
  es.foldl stepTrace (some (s, []))

theorem runTrace_append_single (s : State) (es : List StreamEvent) (e : StreamEvent) :
    runTrace s (es ++ [e]) = stepTrace (runTrace s es) e := by
  simp [runTrace]

/-- Every exit and OSK event names an id that an earlier accept handed out, `n`
accepts having come before the list. -/
def IdsIssued : ℕ → List StreamEvent → Prop
  | _, [] => True
  | n, .accept :: es => IdsIssued (n + 1) es
  | n, .exit c :: es => c < n ∧ IdsIssued n es
  | n, .osk c _ _ :: es => c < n ∧ IdsIssued n es

/-- The id an exit or OSK event names is below the number of accepts. -/
def NamesIssued (n : ℕ) : StreamEvent → Prop
  | .accept => True
  | .exit c => c < n
  | .osk c _ _ => c < n

theorem idsIssued_append_single (n : ℕ) (es : List StreamEvent) (e : StreamEvent) :
    IdsIssued n (es ++ [e]) ↔ IdsIssued n es ∧ NamesIssued (n + acceptCount es) e := by
  induction es generalizing n with
  | nil => cases e <;> simp [IdsIssued, NamesIssued]
  | cons e' es ih =>
    cases e' <;> simp [IdsIssued, ih, Nat.add_assoc, Nat.add_comm 1, and_assoc]

def prunedIds (effs : List Effects) : List ℕ := effs.filterMap (·.pruned)

def forwardedId : StreamEvent × Effects → Option ℕ
  | (.osk c _ _, eff) => if eff.setOsk = [] then none else some c
  | _ => none

/-- The ids whose OSK was forwarded, in order. -/
def forwardedIds (es : List StreamEvent) (effs : List Effects) : List ℕ :=
  (es.zip effs).filterMap forwardedId

@[simp] theorem prunedIds_append_single (effs : List Effects) (eff : Effects) :
    prunedIds (effs ++ [eff]) = prunedIds effs ++ eff.pruned.toList := by
  cases h : eff.pruned <;> simp [prunedIds, h]

theorem forwardedIds_append_single {es : List StreamEvent} {effs : List Effects}
    (h : effs.length = es.length) (e : StreamEvent) (eff : Effects) :
    forwardedIds (es ++ [e]) (effs ++ [eff]) = forwardedIds es effs ++ (forwardedId (e, eff)).toList := by
  simp only [forwardedIds, List.zip_append h.symm, List.zip_cons_cons, List.zip_nil_left,
    List.filterMap_append]
  cases h : forwardedId (e, eff) <;> simp [List.filterMap_cons, h]

@[simp] theorem acceptCount_append_single (es : List StreamEvent) (e : StreamEvent) :
    acceptCount (es ++ [e]) = acceptCount es + if e = .accept then 1 else 0 := by
  simp [acceptCount, List.count_append, List.count_singleton', eq_comm]

/-! ## The state a history determines -/

/-- The manager's state as a function of its history: an id is budding when it was
handed out, never exited nor pruned, and is above every forwarded id; the active id
is the largest forwarded id, unless it exited. -/
structure Tracks (es : List StreamEvent) (effs : List Effects) (s : State) : Prop where
  length_eq : effs.length = es.length
  next_eq : s.nextConnectionId = acceptCount es
  exited_lt : ∀ c, StreamEvent.exit c ∈ es → c < s.nextConnectionId
  pruned_lt : ∀ c ∈ prunedIds effs, c < s.nextConnectionId
  forwarded_lt : ∀ c ∈ forwardedIds es effs, c < s.nextConnectionId
  budding_iff : ∀ c, c ∈ s.buddingConnections ↔ c < s.nextConnectionId ∧
    StreamEvent.exit c ∉ es ∧ c ∉ prunedIds effs ∧ ∀ f ∈ forwardedIds es effs, f < c
  active_iff : ∀ a, s.activeConnection = some a ↔ a ∈ forwardedIds es effs ∧
    (∀ f ∈ forwardedIds es effs, f ≤ a) ∧ StreamEvent.exit a ∉ es
  forwarded_not_pruned : ∀ f ∈ forwardedIds es effs, f ∉ prunedIds effs

variable {es es' : List StreamEvent} {effs effs' : List Effects} {s s' : State}
  {c : ℕ} {key : Key} {reason : SetOskReason}

theorem tracks_nil : Tracks [] [] State.new :=
  ⟨rfl, rfl, by simp, by simp [prunedIds], by simp [forwardedIds], by simp [State.new],
    by simp [State.new, forwardedIds], by simp [forwardedIds]⟩

theorem Tracks.congr (h : Tracks es effs s) (hlen : effs'.length = es'.length)
    (hacc : acceptCount es' = acceptCount es)
    (hexit : ∀ c, StreamEvent.exit c ∈ es' ↔ StreamEvent.exit c ∈ es)
    (hp : ∀ c, c ∈ prunedIds effs' ↔ c ∈ prunedIds effs)
    (hf : ∀ c, c ∈ forwardedIds es' effs' ↔ c ∈ forwardedIds es effs) : Tracks es' effs' s where
  length_eq := hlen
  next_eq := hacc ▸ h.next_eq
  exited_lt c hc := h.exited_lt c ((hexit c).mp hc)
  pruned_lt c hc := h.pruned_lt c ((hp c).mp hc)
  forwarded_lt c hc := h.forwarded_lt c ((hf c).mp hc)
  budding_iff c := by simp only [h.budding_iff, hexit, hp, hf]
  active_iff a := by simp only [h.active_iff, hexit, hf]
  forwarded_not_pruned f hf' := by rw [hp]; exact h.forwarded_not_pruned f ((hf f).mp hf')

theorem onAccept_mem {p : Option ℕ} (he : onAccept s = some (s', p)) :
    s'.nextConnectionId = s.nextConnectionId + 1 ∧ s'.activeConnection = s.activeConnection ∧
      (∀ m, p = some m → m ∈ s.buddingConnections) ∧
      ∀ c, c ∈ s'.buddingConnections ↔
        c = s.nextConnectionId ∨ (c ∈ s.buddingConnections ∧ p ≠ some c) := by
  obtain ⟨s'', p', hs, hnext, hact, hb⟩ := onAccept_spec s
  obtain ⟨rfl, rfl⟩ := Prod.mk.inj (Option.some.inj (hs.symm.trans he))
  refine ⟨hnext, hact, ?_⟩
  rcases hb with ⟨-, rfl, hb⟩ | ⟨hne, -, rfl, hb⟩ <;> simp only [hb, Finset.mem_insert]
  · simp
  · refine ⟨fun m hm => (Option.some.inj hm) ▸ Finset.min'_mem _ hne, fun c => ?_⟩
    simp only [Finset.mem_erase, ne_eq, Option.some.injEq, and_comm, eq_comm]

theorem Tracks.accept {p : Option ℕ} (h : Tracks es effs s) (he : onAccept s = some (s', p)) :
    Tracks (es ++ [.accept]) (effs ++ [{ pruned := p }]) s' := by
  obtain ⟨hnext, hact, hp, hb⟩ := onAccept_mem he
  have hfwd : forwardedIds (es ++ [.accept]) (effs ++ [{ pruned := p }]) = forwardedIds es effs := by
    simp [forwardedIds_append_single h.length_eq, forwardedId]
  have hex : ∀ c, StreamEvent.exit c ∈ es ++ [.accept] ↔ StreamEvent.exit c ∈ es := by simp
  have hpr : ∀ c, c ∈ prunedIds (effs ++ [{ pruned := p }]) ↔ c ∈ prunedIds effs ∨ p = some c := by
    simp [Option.mem_toList, eq_comm]
  have hpb : ∀ m, p = some m → m < s.nextConnectionId := fun m hm => ((h.budding_iff m).mp (hp m hm)).1
  refine ⟨by simp [h.length_eq], by simp [hnext, h.next_eq], fun c hc => ?_, fun c hc => ?_,
    fun c hc => ?_, fun c => ?_, fun a => ?_, fun f hf => ?_⟩
  · rw [hex] at hc
    have := h.exited_lt c hc
    omega
  · rw [hpr] at hc
    rcases hc with hc | hc
    · have := h.pruned_lt c hc; omega
    · have := hpb c hc; omega
  · rw [hfwd] at hc
    have := h.forwarded_lt c hc
    omega
  · rw [hb, hnext, hex, hpr, hfwd, h.budding_iff]
    constructor
    · rintro (rfl | ⟨⟨hc, hx, hpc, hf⟩, hpn⟩)
      · exact ⟨by omega, fun hm => (h.exited_lt _ hm).false,
          not_or.mpr ⟨fun hm => (h.pruned_lt _ hm).false, fun hm => (hpb _ hm).false⟩, h.forwarded_lt⟩
      · exact ⟨by omega, hx, not_or.mpr ⟨hpc, hpn⟩, hf⟩
    · rintro ⟨hc, hx, hpc, hf⟩
      rcases Nat.lt_succ_iff_lt_or_eq.mp hc with hc | rfl
      · exact .inr ⟨⟨hc, hx, fun hm => hpc (.inl hm), hf⟩, fun hm => hpc (.inr hm)⟩
      · exact .inl rfl
  · rw [hact, hfwd, hex]
    exact h.active_iff a
  · rw [hfwd] at hf
    rw [hpr]
    refine not_or.mpr ⟨h.forwarded_not_pruned f hf, fun hm => ?_⟩
    exact (((h.budding_iff f).mp (hp f hm)).2.2.2 f hf).false

theorem Tracks.exit (h : Tracks es effs s) (hc : c < s.nextConnectionId) :
    Tracks (es ++ [.exit c]) (effs ++ [{ setOsk := [] }]) (onExit s c) := by
  have hfwd : forwardedIds (es ++ [.exit c]) (effs ++ [{ setOsk := [] }]) = forwardedIds es effs := by
    simp [forwardedIds_append_single h.length_eq, forwardedId]
  have hex : ∀ x, StreamEvent.exit x ∈ es ++ [.exit c] ↔ StreamEvent.exit x ∈ es ∨ x = c := by
    simp
  have hpr : prunedIds (effs ++ [{ setOsk := [] }]) = prunedIds effs := by simp
  obtain ⟨hnext, hcases⟩ := onExit_spec s c
  have hexl : ∀ x, StreamEvent.exit x ∈ es ++ [.exit c] → x < (onExit s c).nextConnectionId := by
    intro x hx
    rw [hnext]
    rcases (hex x).mp hx with hx | rfl
    · exact h.exited_lt x hx
    · exact hc
  refine ⟨by simp [h.length_eq], by simp [hnext, h.next_eq], hexl,
    fun x hx => hnext ▸ h.pruned_lt x (hpr ▸ hx), fun x hx => hnext ▸ h.forwarded_lt x (hfwd ▸ hx),
    fun x => ?_, fun a => ?_, fun f hf => hpr ▸ h.forwarded_not_pruned f (hfwd ▸ hf)⟩
  · rw [hnext, hex, hpr, hfwd]
    rcases hcases with ⟨hact, -, hb⟩ | ⟨-, -, hb⟩
    · rw [hb, h.budding_iff]
      by_cases hxc : x = c
      · subst hxc
        have hcf := ((h.active_iff x).mp hact).1
        simp only [or_true, not_true_eq_false, false_and, and_false, iff_false, not_and, not_forall]
        exact fun _ _ _ => ⟨x, hcf, lt_irrefl x⟩
      · simp only [hxc, or_false]
    · rw [hb, Finset.mem_erase, h.budding_iff]
      tauto
  · rw [hex, hfwd]
    rcases hcases with ⟨hact, hact', -⟩ | ⟨hact, hact', -⟩
    · rw [hact']
      simp only [reduceCtorEq, false_iff, not_and, not_or]
      intro ha hmax hx hne
      exact hne (Option.some.inj (((h.active_iff a).mpr ⟨ha, hmax, hx⟩).symm.trans hact))
    · rw [hact', h.active_iff a, not_or]
      exact ⟨fun ⟨ha, hmax, hx⟩ =>
          ⟨ha, hmax, hx, fun hac => hact (hac ▸ (h.active_iff a).mpr ⟨ha, hmax, hx⟩)⟩,
        fun ⟨ha, hmax, hx, _⟩ => ⟨ha, hmax, hx⟩⟩

theorem forwardedIds_osk (h : Tracks es effs s) (out : List (Key × SetOskReason)) :
    forwardedIds (es ++ [.osk c key reason]) (effs ++ [{ setOsk := out }]) =
      forwardedIds es effs ++ if out = [] then [] else [c] := by
  rw [forwardedIds_append_single h.length_eq]
  split_ifs with ho <;> simp [forwardedId, ho]

theorem Tracks.osk (h : Tracks es effs s) :
    Tracks (es ++ [.osk c key reason]) (effs ++ [{ setOsk := (onOsk s c key reason).2 }])
      (onOsk s c key reason).1 := by
  have hacc : acceptCount (es ++ [.osk c key reason]) = acceptCount es := by simp
  have hex : ∀ x, StreamEvent.exit x ∈ es ++ [.osk c key reason] ↔ StreamEvent.exit x ∈ es := by
    simp
  have hpr : ∀ out : List (Key × SetOskReason), prunedIds (effs ++ [{ setOsk := out }]) =
      prunedIds effs := by simp
  have hlen : ∀ out : List (Key × SetOskReason),
      (effs ++ [({ setOsk := out } : Effects)]).length =
        (es ++ [StreamEvent.osk c key reason]).length := by
    simp [h.length_eq]
  have hkeep : ∀ out : List (Key × SetOskReason),
      (∀ x, x ∈ forwardedIds (es ++ [.osk c key reason]) (effs ++ [{ setOsk := out }]) ↔
        x ∈ forwardedIds es effs) → Tracks (es ++ [.osk c key reason]) (effs ++ [{ setOsk := out }]) s :=
    fun out hf => h.congr (hlen out) hacc hex (fun x => by rw [hpr]) hf
  rcases onOsk_cases s c key reason with ⟨-, -, -, he⟩ | ⟨hact, he⟩ | ⟨-, he⟩
  · rw [he]
    exact hkeep [] (by simp [forwardedIds_osk h])
  · rw [he]
    have hcf := ((h.active_iff c).mp hact).1
    exact hkeep _ fun x => by simp only [forwardedIds_osk h]; simp; rintro rfl; exact hcf
  rcases onOskFromBudding_spec s c key reason with ⟨hcb, hb⟩ | ⟨-, hb⟩ <;> rw [he, hb] <;> dsimp only
  · obtain ⟨hcn, hcx, hcp, hcf⟩ := (h.budding_iff c).mp hcb
    have hfwd : forwardedIds (es ++ [.osk c key reason]) (effs ++ [{ setOsk := [(key, reason)] }]) =
        forwardedIds es effs ++ [c] := by simp [forwardedIds_osk h]
    refine ⟨hlen _, hacc ▸ h.next_eq, fun x hx => h.exited_lt x ((hex x).mp hx),
      fun x hx => h.pruned_lt x (hpr _ ▸ hx), fun x hx => ?_, fun x => ?_, fun a => ?_, fun f hf => ?_⟩
    · rw [hfwd, List.mem_append, List.mem_singleton] at hx
      rcases hx with hx | rfl
      · exact h.forwarded_lt x hx
      · exact hcn
    · rw [Finset.mem_filter, h.budding_iff, hex, hpr, hfwd]
      simp only [List.forall_mem_append, List.forall_mem_singleton]
      tauto
    · rw [hex, hfwd]
      simp only [Option.some.injEq, List.mem_append, List.mem_singleton]
      constructor
      · rintro rfl
        exact ⟨.inr rfl, fun f hf => hf.elim (fun hf => (hcf f hf).le) le_of_eq, hcx⟩
      · rintro ⟨ha | rfl, hall, -⟩
        · exact absurd (hall c (.inr rfl)) (not_le.mpr (hcf a ha))
        · rfl
    · rw [hfwd, List.mem_append, List.mem_singleton] at hf
      rw [hpr]
      rcases hf with hf | rfl
      · exact h.forwarded_not_pruned f hf
      · exact hcp
  · exact hkeep [] (by simp [forwardedIds_osk h])

theorem Tracks.onOsk_setOsk (h : Tracks es effs s) (hc : c < s.nextConnectionId) :
    (onOsk s c key reason).2 = if StreamEvent.exit c ∉ es ∧ c ∉ prunedIds effs ∧
      ∀ f ∈ forwardedIds es effs, f ≤ c then [(key, reason)] else [] := by
  rcases onOsk_cases s c key reason with ⟨a, ha, hca, he⟩ | ⟨hact, he⟩ | ⟨hlt, he⟩ <;> rw [he]
  · have haf := ((h.active_iff a).mp ha).1
    exact (if_neg fun ⟨_, _, hall⟩ => absurd (hall a haf) (not_le.mpr hca)).symm
  · obtain ⟨hcf, hmax, hcx⟩ := (h.active_iff c).mp hact
    exact (if_pos ⟨hcx, h.forwarded_not_pruned c hcf, hmax⟩).symm
  rcases onOskFromBudding_spec s c key reason with ⟨hcb, hb⟩ | ⟨hcb, hb⟩ <;> rw [hb]
  · obtain ⟨-, hcx, hcp, hcf⟩ := (h.budding_iff c).mp hcb
    exact (if_pos ⟨hcx, hcp, fun f hf => (hcf f hf).le⟩).symm
  · refine (if_neg fun ⟨hcx, hcp, hall⟩ => ?_).symm
    by_cases hcf : c ∈ forwardedIds es effs
    · exact (hlt c ((h.active_iff c).mpr ⟨hcf, hall, hcx⟩)).false
    · exact hcb ((h.budding_iff c).mpr ⟨hc, hcx, hcp, fun f hf =>
        lt_of_le_of_ne (hall f hf) fun hfc => hcf (hfc ▸ hf)⟩)

/-! ## Runs -/

/-- Every run over issued ids succeeds and ends in the state its history determines. -/
theorem runTrace_tracks {es : List StreamEvent} (hv : IdsIssued 0 es) :
    ∃ s effs, runTrace State.new es = some (s, effs) ∧ Tracks es effs s := by
  induction es using List.reverseRecOn with
  | nil => exact ⟨_, _, rfl, tracks_nil⟩
  | append_singleton es e ih =>
    obtain ⟨hv, he⟩ := (idsIssued_append_single 0 es e).mp hv
    obtain ⟨s, effs, hrun, h⟩ := ih hv
    rw [runTrace_append_single, hrun]
    cases e with
    | accept =>
      obtain ⟨s', p, hs, -⟩ := onAccept_spec s
      exact ⟨s', effs ++ [{ pruned := p }], by simp [stepTrace, onEvent, hs], h.accept hs⟩
    | exit c =>
      exact ⟨_, _, rfl, h.exit (by simpa [h.next_eq, NamesIssued] using he)⟩
    | osk c key reason => exact ⟨_, _, rfl, h.osk⟩

/-- Supersession, exactly: after any run of issued ids from `ConnectionManager::new`, an
OSK event from an issued connection makes one `set_osk` call, with its key and reason,
when that connection never exited, was never pruned, and is at least every connection
whose OSK was forwarded before; otherwise it makes none. -/
theorem osk_forwarded_iff (pre : List StreamEvent) (c : ℕ) (key : Key) (reason : SetOskReason)
    (hv : IdsIssued 0 (pre ++ [.osk c key reason])) :
    ∃ s effs s' eff, runTrace State.new pre = some (s, effs) ∧
      onEvent s (.osk c key reason) = some (s', eff) ∧
      eff.setOsk = if StreamEvent.exit c ∉ pre ∧ c ∉ prunedIds effs ∧
          ∀ f ∈ forwardedIds pre effs, f ≤ c then [(key, reason)] else [] := by
  obtain ⟨hv, hc⟩ := (idsIssued_append_single 0 pre _).mp hv
  obtain ⟨s, effs, hrun, h⟩ := runTrace_tracks hv
  exact ⟨s, effs, _, _, hrun, rfl, h.onOsk_setOsk (by simpa [h.next_eq, NamesIssued] using hc)⟩

/-- Three connections, the newest forwards first: a later OSK of the middle one is dropped. -/
theorem osk_forwarded_iff_superseded :
    ∃ s effs s' eff,
      runTrace State.new [.accept, .accept, .accept, .osk 2 (Bytes.zeroed keyLength) .fresh] =
        some (s, effs) ∧
      onEvent s (.osk 1 (Bytes.zeroed keyLength) .fresh) = some (s', eff) ∧
      eff.setOsk = if StreamEvent.exit 1 ∉
          [.accept, .accept, .accept, .osk 2 (Bytes.zeroed keyLength) .fresh] ∧ 1 ∉ prunedIds effs ∧
          ∀ f ∈ forwardedIds [.accept, .accept, .accept, .osk 2 (Bytes.zeroed keyLength) .fresh] effs,
            f ≤ 1 then [(Bytes.zeroed keyLength, .fresh)] else [] :=
  osk_forwarded_iff _ 1 _ _ (by simp [IdsIssued])

/-- The ids of forwarded OSKs never decrease along a run. -/
theorem forwardedIds_sorted {es : List StreamEvent} {s : State} {effs : List Effects}
    (hv : IdsIssued 0 es) (hrun : runTrace State.new es = some (s, effs)) :
    (forwardedIds es effs).Pairwise (· ≤ ·) := by
  induction es using List.reverseRecOn generalizing s effs with
  | nil => cases hrun; simp [forwardedIds]
  | append_singleton es e ih =>
    obtain ⟨hv', he⟩ := (idsIssued_append_single 0 es e).mp hv
    obtain ⟨s₀, effs₀, hrun₀, h⟩ := runTrace_tracks hv'
    rw [runTrace_append_single, hrun₀, stepTrace, Option.some_bind] at hrun
    obtain ⟨⟨s₁, eff⟩, he₁, heq⟩ := Option.map_eq_some'.mp hrun
    cases heq
    rw [forwardedIds_append_single h.length_eq, List.pairwise_append]
    refine ⟨ih hv' hrun₀, by cases forwardedId (e, eff) <;> simp, fun a ha b hb => ?_⟩
    cases e with
    | osk c key reason =>
      cases he₁
      have hc : c < s₀.nextConnectionId := by simpa [h.next_eq, NamesIssued] using he
      have hset : (onOsk s₀ c key reason).2 = _ := h.onOsk_setOsk hc
      by_cases hcond : StreamEvent.exit c ∉ es ∧ c ∉ prunedIds effs₀ ∧
          ∀ f ∈ forwardedIds es effs₀, f ≤ c
      · simp only [forwardedId, hset, if_pos hcond] at hb
        simp at hb
        exact hb ▸ hcond.2.2 a ha
      · simp [forwardedId, hset, if_neg hcond] at hb
    | _ => simp [forwardedId] at hb

theorem forwardedIds_sorted_superseded :
    (forwardedIds [.accept, .accept, .osk 1 (Bytes.zeroed keyLength) .fresh,
      .osk 0 (Bytes.zeroed keyLength) .stale]
      [{ setOsk := [] }, { setOsk := [] }, { setOsk := [(Bytes.zeroed keyLength, .fresh)] },
        { setOsk := [] }]).Pairwise (· ≤ ·) :=
  forwardedIds_sorted (s := ⟨2, some 1, ∅⟩) (by simp [IdsIssued]) rfl

end Daisyway.ConnectionManager