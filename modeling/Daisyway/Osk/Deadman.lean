import Daisyway.Crypto.Basics
import Mathlib.Data.List.Chain

/-! # The OSK deadman

`DeadmanWorker::event_loop` erases the key when it starts, then waits for a request until
`erase_after` has passed: a request goes to the broker, a closed channel erases the key and
ends the loop, and a timeout erases the key and waits again. A broker error panics the
thread, and so does a deadline `Instant::now() + erase_after` past `horizon`, the seconds
from the worker's start to `i64::MAX` seconds of the monotonic clock.

Time is a natural number and a broker call takes none of it; a run is the sequence of events
at their times, a timeout firing exactly when no request arrives by the deadline. Along every
run the broker is called at least every `erase_after`, starting with an erase at time zero,
and the key is erased only after `erase_after` without a request, or when the channel closes.
-/

set_option autoImplicit false

namespace Daisyway.Deadman

inductive BrokerCall
  | setOsk (time : ℕ) (key : Key) (reason : SetOskReason)
  | eraseStaleOsk (time : ℕ)

def BrokerCall.time : BrokerCall → ℕ
  | .setOsk time _ _ => time
  | .eraseStaleOsk time => time

def BrokerCall.isErase : BrokerCall → Bool
  | .setOsk .. => false
  | .eraseStaleOsk _ => true

/-- Whether `event_loop` still runs, has returned `Ok(())`, or has returned an error
(on which the thread panics). -/
inductive Status
  | running
  | exited
  | panicked
deriving DecidableEq

/-- The worker: the time of its last event, `next_erase`, and the broker calls so far. -/
structure Worker where
  now : ℕ
  nextErase : ℕ
  status : Status
  calls : List BrokerCall

/-- What `timeout_at(next_erase, self.requests.recv())` returns; `ok` is whether the broker
call that follows succeeds. -/
inductive Event
  /-- `Some(Some(SetOsk { key, reason }))` at `time`. -/
  | request (time : ℕ) (key : Key) (reason : SetOskReason) (ok : Bool)
  /-- `Some(None)`: the channel is closed. -/
  | closed (time : ℕ) (ok : Bool)
  /-- `None`: `next_erase` has passed. -/
  | timeout (ok : Bool)

def Event.isClosed : Event → Bool
  | .closed .. => true
  | _ => false

section

variable (eraseAfter horizon : ℕ)

/-- After a broker call at `time` the loop goes on when the call succeeded and the next
deadline fits; otherwise the thread panics. -/
def goOn (ok : Bool) (time : ℕ) : Status :=
  if ok = true ∧ time + eraseAfter ≤ horizon then .running else .panicked

/-- The worker after the `erase_stale_osk` that starts `event_loop`. -/
def start (ok : Bool) : Worker :=
  ⟨0, eraseAfter, goOn eraseAfter horizon ok 0, [.eraseStaleOsk 0]⟩

/-- One turn of the loop of `event_loop`; `none` where the event cannot happen. -/
def step (w : Worker) : Event → Option Worker
  | .request time key reason ok =>
    if w.status = .running ∧ w.now ≤ time ∧ time ≤ w.nextErase then
      some ⟨time, time + eraseAfter, goOn eraseAfter horizon ok time,
        w.calls ++ [.setOsk time key reason]⟩
    else none
  | .closed time ok =>
    if w.status = .running ∧ w.now ≤ time ∧ time ≤ w.nextErase then
      some ⟨time, w.nextErase, if ok then .exited else .panicked, w.calls ++ [.eraseStaleOsk time]⟩
    else none
  | .timeout ok =>
    if w.status = .running then
      some ⟨w.nextErase, w.nextErase + eraseAfter, goOn eraseAfter horizon ok w.nextErase,
        w.calls ++ [.eraseStaleOsk w.nextErase]⟩
    else none

def run : Worker → List Event → Option Worker
  | w, [] => some w
  | w, e :: es => (step eraseAfter horizon w e).bind fun w' => run w' es

end

/-! ## Timing of the broker calls -/

theorem chain'_append_single {R : BrokerCall → BrokerCall → Prop} {l : List BrokerCall}
    {c : BrokerCall} (h : l.Chain' R) (hl : ∀ x ∈ l.getLast?, R x c) : (l ++ [c]).Chain' R :=
  h.append (List.chain'_singleton c) fun x hx y hy => by cases hy; exact hl x hx

section

variable (eraseAfter : ℕ)

/-- What every worker a run reaches satisfies. -/
structure Inv (w : Worker) : Prop where
  head : w.calls.head? = some (.eraseStaleOsk 0)
  last : ∀ c ∈ w.calls.getLast?, c.time = w.now
  nextErase : w.status = .running → w.nextErase = w.now + eraseAfter
  chain : w.calls.Chain' fun x y => x.time ≤ y.time ∧ y.time ≤ x.time + eraseAfter

theorem inv_start (horizon : ℕ) (ok : Bool) : Inv eraseAfter (start eraseAfter horizon ok) :=
  ⟨rfl, by simp [start, BrokerCall.time], fun _ => (Nat.zero_add _).symm, List.chain'_singleton _⟩

variable {eraseAfter} {horizon : ℕ}

theorem Inv.append {w : Worker} (hi : Inv eraseAfter w) (c : BrokerCall) :
    (w.calls ++ [c]).head? = some (.eraseStaleOsk 0) := by
  rw [List.head?_append, hi.head]; rfl

/-- What one turn can do: it needs a running worker and appends one broker call, which
sets the worker's time: no earlier than the last event, or at the deadline, and never past
it; a worker still running is next due `erase_after` after the call, and an erase with the
channel open is at the deadline. -/
theorem step_cases {w w' : Worker} {e : Event} (h : step eraseAfter horizon w e = some w') :
    w.status = .running ∧ ∃ c, w'.calls = w.calls ++ [c] ∧ w'.now = c.time ∧
      (w.now ≤ c.time ∨ c.time = w.nextErase) ∧ c.time ≤ w.nextErase ∧
      (w'.status = .running → w'.nextErase = c.time + eraseAfter) ∧
      (c.isErase = true → e.isClosed = false → c.time = w.nextErase) := by
  cases e with
  | request time key reason ok =>
    simp only [step] at h
    split at h
    case isFalse => cases h
    rename_i hg
    obtain ⟨hr, hn, hd⟩ := hg
    cases h
    exact ⟨hr, _, rfl, rfl, .inl hn, hd, fun _ => rfl, fun hc => by cases hc⟩
  | closed time ok =>
    simp only [step] at h
    split at h
    case isFalse => cases h
    rename_i hg
    obtain ⟨hr, hn, hd⟩ := hg
    cases h
    refine ⟨hr, .eraseStaleOsk time, rfl, rfl, .inl hn, hd, fun hs => ?_, fun _ hc => by cases hc⟩
    cases ok <;> cases hs
  | timeout ok =>
    simp only [step] at h
    split at h
    case isFalse => cases h
    cases h
    exact ⟨‹_›, _, rfl, rfl, .inr rfl, le_rfl, fun _ => rfl, fun _ _ => rfl⟩

theorem step_inv {w w' : Worker} {e : Event} (hi : Inv eraseAfter w)
    (h : step eraseAfter horizon w e = some w') : Inv eraseAfter w' := by
  obtain ⟨hr, c, hcalls, hnow, hlo, hhi, hnext, -⟩ := step_cases h
  have hne := hi.nextErase hr
  refine ⟨hcalls ▸ hi.append c, fun x hx => ?_, fun hs => hnext hs ▸ hnow ▸ rfl, ?_⟩
  · rw [hcalls, List.getLast?_concat] at hx
    cases hx
    exact hnow.symm
  · rw [hcalls]
    exact chain'_append_single hi.chain fun x hx => by rw [hi.last x hx]; omega

theorem step_eraseChain {w w' : Worker} {e : Event} (hi : Inv eraseAfter w)
    (hc : e.isClosed = false)
    (he : w.calls.Chain' fun x y => y.isErase = true → y.time = x.time + eraseAfter)
    (h : step eraseAfter horizon w e = some w') :
    w'.calls.Chain' fun x y => y.isErase = true → y.time = x.time + eraseAfter := by
  obtain ⟨hr, c, hcalls, -, -, -, -, herase⟩ := step_cases h
  rw [hcalls]
  exact chain'_append_single he fun x hx hce => by
    rw [herase hce hc, hi.last x hx, hi.nextErase hr]

theorem run_inv {w w' : Worker} {es : List Event} (hi : Inv eraseAfter w)
    (h : run eraseAfter horizon w es = some w') : Inv eraseAfter w' := by
  induction es generalizing w with
  | nil => cases h; exact hi
  | cons e es ih =>
    obtain ⟨w1, h1, h2⟩ := Option.bind_eq_some.mp h
    exact ih (step_inv hi h1) h2

theorem run_eraseChain {w w' : Worker} {es : List Event} (hi : Inv eraseAfter w)
    (hc : ∀ e ∈ es, e.isClosed = false)
    (he : w.calls.Chain' fun x y => y.isErase = true → y.time = x.time + eraseAfter)
    (h : run eraseAfter horizon w es = some w') :
    w'.calls.Chain' fun x y => y.isErase = true → y.time = x.time + eraseAfter := by
  induction es generalizing w with
  | nil => cases h; exact he
  | cons e es ih =>
    obtain ⟨w1, h1, h2⟩ := Option.bind_eq_some.mp h
    exact ih (step_inv hi h1) (fun e' he' => hc e' (List.mem_cons_of_mem _ he'))
      (step_eraseChain hi (hc e (List.mem_cons_self _ _)) he h1) h2

end

/-- Along every run of the worker from its start: the broker's first call erases the key at
time zero; each call comes at most `erase_after` after the one before it; while the loop
runs, its next timeout is due `erase_after` after the last call; and as long as the channel
has not closed, the key is erased only after `erase_after` without a request. -/
theorem run_deadman (eraseAfter horizon : ℕ) (ok : Bool) (events : List Event) (w : Worker)
    (h : run eraseAfter horizon (start eraseAfter horizon ok) events = some w) :
    w.calls.head? = some (.eraseStaleOsk 0) ∧
      w.calls.Chain' (fun x y => x.time ≤ y.time ∧ y.time ≤ x.time + eraseAfter) ∧
      (w.status = .running → ∀ c ∈ w.calls.getLast?, w.nextErase = c.time + eraseAfter) ∧
      ((∀ e ∈ events, e.isClosed = false) →
        w.calls.Chain' fun x y => y.isErase = true → y.time = x.time + eraseAfter) := by
  have hi := run_inv (inv_start eraseAfter horizon ok) h
  refine ⟨hi.head, hi.chain, fun hr c hc => by rw [hi.nextErase hr, hi.last c hc], fun hc => ?_⟩
  exact run_eraseChain (inv_start eraseAfter horizon ok) hc (List.chain'_singleton _) h

/-- A request at 5, a timeout at 15 and a request at 20. -/
def timeoutRun : List Event :=
  [.request 5 (Bytes.zeroed 32) .fresh true, .timeout true, .request 20 (Bytes.zeroed 32) .fresh true]

/-- That run with `erase_after` 10, the monotonic clock reading zero at the start. -/
theorem run_deadman_timeout :
    ∃ w, run 10 9223372036854775807 (start 10 9223372036854775807 true) timeoutRun = some w ∧
      w.calls.head? = some (.eraseStaleOsk 0) ∧
      w.calls.Chain' (fun x y => x.time ≤ y.time ∧ y.time ≤ x.time + 10) ∧
      (w.status = .running → ∀ c ∈ w.calls.getLast?, w.nextErase = c.time + 10) ∧
      ((∀ e ∈ timeoutRun, e.isClosed = false) →
        w.calls.Chain' fun x y => y.isErase = true → y.time = x.time + 10) := by
  obtain ⟨w, hw⟩ : ∃ w,
      run 10 9223372036854775807 (start 10 9223372036854775807 true) timeoutRun = some w := ⟨_, rfl⟩
  exact ⟨w, hw, run_deadman 10 _ true _ w hw⟩

/-! ## The loop driven by its channel

Given when each request is sent, the turns of the loop are determined: `timeout_at` hands
over the next request if it was sent by the deadline, and times out otherwise. Driven so,
with `erase_after` positive, the requests sent in time order and every deadline within the
horizon, the loop receives every request at the time it is sent, and before each one it
erases the key once for each multiple of `erase_after` after the previous call that comes
before the request.
-/

structure Request where
  time : ℕ
  key : Key
  reason : SetOskReason

/-- What `timeout_at(next_erase, self.requests.recv())` yields when the next request is sent
at `r.time`; the broker call that follows succeeds. -/
def Worker.nextEvent (w : Worker) (r : Request) : Event :=
  if r.time ≤ w.nextErase then .request r.time r.key r.reason true else .timeout true

section

variable (eraseAfter horizon : ℕ)

/-- `event_loop` for at most `fuel` turns, until it has received every request of `pending`. -/
def drive : ℕ → Worker → List Request → Option Worker
  | _, w, [] => some w
  | 0, _, _ :: _ => none
  | fuel + 1, w, r :: rs =>
    (step eraseAfter horizon w (w.nextEvent r)).bind fun w' =>
      drive fuel w' (if r.time ≤ w.nextErase then rs else r :: rs)

theorem drive_cons (fuel : ℕ) (w : Worker) (r : Request) (rs : List Request) :
    drive eraseAfter horizon (fuel + 1) w (r :: rs) =
      (step eraseAfter horizon w (w.nextEvent r)).bind fun w' =>
        drive eraseAfter horizon fuel w' (if r.time ≤ w.nextErase then rs else r :: rs) := rfl

/-- The erasures at `k` deadlines in a row, the first `erase_after` after `last`. -/
def erasesFrom : ℕ → ℕ → List BrokerCall
  | _, 0 => []
  | last, k + 1 => .eraseStaleOsk (last + eraseAfter) :: erasesFrom (last + eraseAfter) k

/-- The broker calls for requests sent at their times, the previous call being at `last`:
before each request, an erasure at each multiple of `erase_after` after the previous call
that comes strictly before the request. -/
def callsFor : ℕ → List Request → List BrokerCall
  | _, [] => []
  | last, r :: rs => erasesFrom eraseAfter last ((r.time - last - 1) / eraseAfter) ++
      .setOsk r.time r.key r.reason :: callsFor r.time rs

@[simp] theorem length_erasesFrom (last k : ℕ) : (erasesFrom eraseAfter last k).length = k := by
  induction k generalizing last with
  | zero => rfl
  | succ k ih => simp [erasesFrom, ih]

theorem erasesFrom_noErase_iff (last k : ℕ) :
    (∀ c ∈ erasesFrom eraseAfter last k, c.isErase = false) ↔ k = 0 := by
  cases k <;> simp [erasesFrom, BrokerCall.isErase]

variable {eraseAfter horizon}

/-- The turns up to a request sent at `r.time` from a worker whose last call was at `last`:
`k` timeouts, one per deadline the request misses, and then the request. -/
theorem drive_timeouts (hE : 0 < eraseAfter) (r : Request) (rs : List Request)
    (hfit : r.time + eraseAfter ≤ horizon) :
    ∀ (k last : ℕ) (calls : List BrokerCall) (fuel : ℕ), (r.time - last - 1) / eraseAfter = k →
      last ≤ r.time →
      drive eraseAfter horizon (fuel + (k + 1)) ⟨last, last + eraseAfter, .running, calls⟩ (r :: rs) =
        drive eraseAfter horizon fuel ⟨r.time, r.time + eraseAfter, .running,
          calls ++ erasesFrom eraseAfter last k ++ [.setOsk r.time r.key r.reason]⟩ rs := by
  intro k
  induction k with
  | zero =>
    intro last calls fuel hk hle
    have hin : r.time ≤ last + eraseAfter := by
      have := (Nat.div_eq_zero_iff hE).mp hk
      omega
    simp [drive_cons, Worker.nextEvent, step, goOn, hin, hle, hfit, erasesFrom]
  | succ k ih =>
    intro last calls fuel hk hle
    have hlate : eraseAfter ≤ r.time - last - 1 := (Nat.div_pos_iff hE.ne').mp (by omega)
    have hk' : (r.time - (last + eraseAfter) - 1) / eraseAfter = k := by
      rw [Nat.div_eq_sub_div hE hlate] at hk
      rw [← Nat.succ_inj.mp hk]
      congr 1
      omega
    have hmiss : ¬r.time ≤ last + eraseAfter := by omega
    have hnext : goOn eraseAfter horizon true (last + eraseAfter) = .running :=
      if_pos ⟨rfl, by omega⟩
    rw [show fuel + (k + 1 + 1) = fuel + (k + 1) + 1 by omega]
    simp only [drive_cons, Worker.nextEvent, step, if_neg hmiss, true_and, if_true, hnext,
      Option.some_bind]
    rw [ih (last + eraseAfter) _ fuel hk' (by omega)]
    simp [erasesFrom]

theorem drive_callsFor (hE : 0 < eraseAfter) :
    ∀ (reqs : List Request) (last : ℕ) (calls : List BrokerCall),
      (reqs.map Request.time).Chain (· ≤ ·) last → (∀ r ∈ reqs, r.time + eraseAfter ≤ horizon) →
      ∃ now, ∀ fuel, drive eraseAfter horizon (fuel + (callsFor eraseAfter last reqs).length)
          ⟨last, last + eraseAfter, .running, calls⟩ reqs =
        some ⟨now, now + eraseAfter, .running, calls ++ callsFor eraseAfter last reqs⟩
  | [], last, calls, _, _ => ⟨last, fun _ => by simp [drive, callsFor]⟩
  | r :: rs, last, calls, hc, hfit => by
    obtain ⟨hle, hc⟩ := List.chain_cons.mp hc
    obtain ⟨now, hnow⟩ := drive_callsFor hE rs r.time
      (calls ++ erasesFrom eraseAfter last ((r.time - last - 1) / eraseAfter) ++
        [.setOsk r.time r.key r.reason]) hc fun r' hr' => hfit r' (List.mem_cons_of_mem _ hr')
    refine ⟨now, fun fuel => ?_⟩
    have hlen : fuel + (callsFor eraseAfter last (r :: rs)).length =
        fuel + (callsFor eraseAfter r.time rs).length + ((r.time - last - 1) / eraseAfter + 1) := by
      simp only [callsFor, List.length_append, length_erasesFrom, List.length_cons]
      omega
    rw [hlen, drive_timeouts hE r rs (hfit r (List.mem_cons_self _ _)) _ last calls _ rfl hle, hnow]
    simp [callsFor]

end

/-- `event_loop` driven by requests sent in time order, `erase_after` being positive and
every deadline it computes, at its start and at each request, within the horizon: given a
turn for each broker call, it receives every request at the time it is sent and is still
running, due `erase_after` after its last call. The broker is called exactly as `callsFor`
lists: the erasure at the start, then before each request an erasure at each multiple of
`erase_after` after the previous call that comes strictly before the request, and the
request's `set_osk`. -/
theorem drive_requests (eraseAfter horizon : ℕ) (hE : 0 < eraseAfter) (reqs : List Request)
    (hsorted : (reqs.map Request.time).Chain (· ≤ ·) 0)
    (hfit : ∀ t ∈ 0 :: reqs.map Request.time, t + eraseAfter ≤ horizon) :
    ∃ now, ∀ fuel, (callsFor eraseAfter 0 reqs).length ≤ fuel →
      drive eraseAfter horizon fuel (start eraseAfter horizon true) reqs =
        some ⟨now, now + eraseAfter, .running, .eraseStaleOsk 0 :: callsFor eraseAfter 0 reqs⟩ := by
  have h0 : eraseAfter ≤ horizon := by simpa using hfit 0 (List.mem_cons_self _ _)
  have hstart : start eraseAfter horizon true = ⟨0, 0 + eraseAfter, .running, [.eraseStaleOsk 0]⟩ := by
    simp [start, goOn, h0]
  obtain ⟨now, hnow⟩ := drive_callsFor hE reqs 0 [.eraseStaleOsk 0] hsorted fun r hr =>
    hfit r.time (List.mem_cons_of_mem _ (List.mem_map_of_mem _ hr))
  refine ⟨now, fun fuel hfuel => ?_⟩
  obtain ⟨extra, rfl⟩ := Nat.exists_eq_add_of_le' hfuel
  rw [hstart, hnow]
  rfl

/-- Requests at 5 and 27. -/
def lateRequests : List Request := [⟨5, Bytes.zeroed 32, .fresh⟩, ⟨27, Bytes.zeroed 32, .fresh⟩]

/-- Those requests with `erase_after` 10, the monotonic clock reading zero at the start: the
deadlines at 15 and 25 pass first. -/
theorem drive_requests_late :
    ∃ now, ∀ fuel, (callsFor 10 0 lateRequests).length ≤ fuel →
      drive 10 9223372036854775807 fuel (start 10 9223372036854775807 true) lateRequests =
        some ⟨now, now + 10, .running, .eraseStaleOsk 0 :: callsFor 10 0 lateRequests⟩ :=
  drive_requests 10 _ (by decide) lateRequests (.cons (by decide) (.cons (by decide) .nil))
    (by decide)

example : callsFor 10 0 lateRequests =
    [.setOsk 5 (Bytes.zeroed 32) .fresh, .eraseStaleOsk 15, .eraseStaleOsk 25,
      .setOsk 27 (Bytes.zeroed 32) .fresh] := rfl

/-- Requests following one another at most `erase_after` apart, the first at most
`erase_after` after the previous call, never let the key be erased. -/
theorem callsFor_noErase_iff (eraseAfter : ℕ) (hE : 0 < eraseAfter) :
    ∀ (reqs : List Request) (last : ℕ), (∀ c ∈ callsFor eraseAfter last reqs, c.isErase = false) ↔
      (reqs.map Request.time).Chain (fun x y => y ≤ x + eraseAfter) last
  | [], _ => by simp [callsFor]
  | r :: rs, last => by
    have hk : (r.time - last - 1) / eraseAfter = 0 ↔ r.time ≤ last + eraseAfter := by
      rw [Nat.div_eq_zero_iff hE]
      omega
    rw [List.map_cons, List.chain_cons, ← callsFor_noErase_iff eraseAfter hE rs r.time, ← hk,
      ← erasesFrom_noErase_iff eraseAfter last ((r.time - last - 1) / eraseAfter)]
    simp [callsFor, or_imp, forall_and, BrokerCall.isErase]

section

variable (eraseAfter : ℕ)

theorem chain_erasesFrom (k last : ℕ) (x y : BrokerCall) (l : List BrokerCall)
    (hx : x.isErase = true ∨ 0 < k)
    (hl : l.Chain (fun a b => a.isErase = true ∨ b.isErase = true) y) :
    (erasesFrom eraseAfter last k ++ y :: l).Chain
      (fun a b => a.isErase = true ∨ b.isErase = true) x := by
  induction k generalizing last x with
  | zero => exact .cons (.inl (hx.resolve_right (Nat.lt_irrefl 0))) hl
  | succ k ih => exact .cons (.inr rfl) (ih (last + eraseAfter) _ (.inl rfl))

/-- Requests more than `erase_after` apart get an erasure between any two of them: the
broker never takes two `set_osk` calls in a row. -/
theorem chain_callsFor (hE : 0 < eraseAfter) :
    ∀ (reqs : List Request) (last : ℕ) (x : BrokerCall),
      (x.isErase = true ∨ ∀ r ∈ reqs.head?, last + eraseAfter < r.time) →
      (reqs.map Request.time).Chain' (fun a b => a + eraseAfter < b) →
      (callsFor eraseAfter last reqs).Chain (fun a b => a.isErase = true ∨ b.isErase = true) x
  | [], _, _, _, _ => .nil
  | r :: rs, last, x, hx, hc => by
    have hk : x.isErase = true ∨ 0 < (r.time - last - 1) / eraseAfter :=
      hx.imp_right fun h => Nat.div_pos (by have := h r rfl; omega) hE
    refine chain_erasesFrom eraseAfter _ last x _ _ hk (chain_callsFor hE rs r.time _ (.inr ?_) ?_)
    · intro r' hr'
      cases rs with
      | nil => cases hr'
      | cons r'' rs => cases hr'; exact (List.chain'_cons.mp hc).1
    · exact hc.tail

end

end Daisyway.Deadman
