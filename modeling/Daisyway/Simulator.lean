import Daisyway.Etsi014
import Mathlib.Data.List.Infix

/-! # The QKD device simulator

`src/simulator` answers both peers' ETSI 014 key requests: `enc_keys` with the next id of a
64-bit counter, `dec_keys?key_ID=…` with the id the query names, and the key of an id is its
sixteen bytes twice. A request is the path and the query split from the URI the peer
requests; `Uuid`'s `Display` and `parse_str` are parameters.

Served through `fetch_key_internal`, the simulator is the QKD device the rekey protocol
assumes, for a URL of a scheme and a host and an SAE id of unreserved characters without
`dec_keys`, which the routing looks for anywhere in the path.
-/

set_option autoImplicit false

namespace Daisyway.Simulator

/-- What `handle_request` answers: status 404, `bad_request(msg)` (status 400 with the
message as its body), or status 200 with a `keys` body. -/
inductive Response
  | notFound
  | badRequest (msg : String)
  | ok (body : ResponseKeys)

def Response.toHttp : Response → HttpResponse
  | .notFound => .failure "404 Not Found" ""
  | .badRequest msg => .failure "400 Bad Request" msg
  | .ok body => .success (some body)

def contains (s needle : List Char) : Bool := decide (List.IsInfix needle s)

/-- `q.find(needle)` and the slice after the match: the text after the first occurrence. -/
def afterFirst (needle s : List Char) : Option (List Char) :=
  if needle.isPrefixOf s then some (s.drop needle.length)
  else match s with
    | [] => none
    | _ :: cs => afterFirst needle cs

/-- `key_input`: the id's bytes, twice. -/
def keyInput (keyId : Uuid) : Key := keyId.asBytes.append keyId.asBytes

section

variable (parseStr : String → Option Uuid)

/-- The `key_id` of `handle_keys` and the counter after it: the id after `key_ID=` for
`dec_keys`, the counter's next value for `enc_keys`; an error is the bad request's message. -/
def keyId (path : List Char) (query : Option (List Char)) (counter : UInt64) :
    Except String (Uuid × UInt64) :=
  if contains path "dec_keys".toList then
    match query with
    | some q =>
      match afterFirst "key_ID=".toList q with
      | some rest =>
        match parseStr ⟨rest⟩ with
        | some id => .ok (id, counter)
        | none => .error "Invalid key_ID format"
      | none => .error "Invalid key_ID format"
    | none => .error "key_ID parameter is required"
  else .ok (Uuid.fromU128 counter.toNat, counter + 1)

/-- `handle_keys`, with the counter before and after; `none` where `unwrap` panics. -/
def handleKeys (path : List Char) (query : Option (List Char)) (counter : UInt64) :
    Option (Response × UInt64) :=
  if !contains path "dec_keys".toList && !contains path "enc_keys".toList then
    some (.badRequest "Only one of /dec_keys or /enc_keys is allowed", counter)
  else match keyId parseStr path query counter with
    | .error msg => some (.badRequest msg, counter)
    | .ok (id, counter') =>
      match Base64.encode (keyInput id).toList 128 with
      | .error () => none
      | .ok encodedKey => some (.ok ⟨[⟨id, encodedKey⟩]⟩, counter')

def handleRequest (path : List Char) (query : Option (List Char)) (counter : UInt64) :
    Option (Response × UInt64) :=
  if "/api/v1/keys/".toList.isPrefixOf path then handleKeys parseStr path query counter
  else some (.notFound, counter)

end

theorem afterFirst_append (needle s : List Char) : afterFirst needle (needle ++ s) = some s := by
  unfold afterFirst
  rw [if_pos (List.isPrefixOf_iff_prefix.mpr (List.prefix_append _ _)), List.drop_left]

/-- The key body always fits the 128-byte buffer: this `unwrap` never panics. -/
theorem encode_keyInput (id : Uuid) :
    Base64.encode (keyInput id).toList 128 = .ok (Base64.encodeBlocks (keyInput id).toList) := by
  simp [Base64.encode, Base64.encodedLen, keyLength]

section

variable (parseStr : String → Option Uuid)

theorem handleKeys_of_keyId {path : List Char} {query : Option (List Char)} {c c' : UInt64}
    {id : Uuid}
    (hp : (!contains path "dec_keys".toList && !contains path "enc_keys".toList) = false)
    (h : keyId parseStr path query c = .ok (id, c')) :
    handleKeys parseStr path query c =
      some (.ok ⟨[⟨id, Base64.encodeBlocks (keyInput id).toList⟩]⟩, c') := by
  rw [handleKeys, if_neg (by rw [hp]; decide), h]
  simp only [encode_keyInput]

/-- The simulator never panics, and each key it sends converts, at the client, to the id
it names and that id's `key_input`. -/
theorem handleRequest_spec (path : List Char) (query : Option (List Char)) (c : UInt64) :
    ∃ r c', handleRequest parseStr path query c = some (r, c') ∧
      ∀ body, r = .ok body → ∃ id, ∀ uri,
        fetchKeyInternal uri r.toHttp = some (.ok ⟨id, keyInput id⟩) := by
  unfold handleRequest
  split_ifs
  case neg => exact ⟨.notFound, c, rfl, fun _ h => by cases h⟩
  cases hp : (!contains path "dec_keys".toList && !contains path "enc_keys".toList) with
  | true => exact ⟨.badRequest _, c, by rw [handleKeys, if_pos hp], fun _ h => by cases h⟩
  | false =>
    rcases hk : keyId parseStr path query c with msg | ⟨id, c'⟩
    · refine ⟨.badRequest msg, c, ?_, fun _ h => by cases h⟩
      rw [handleKeys, if_neg (by rw [hp]; decide), hk]
    · exact ⟨_, _, handleKeys_of_keyId parseStr hp hk, fun _ _ =>
        ⟨id, fun uri => fetchKeyInternal_encodeBlocks uri ⟨id, keyInput id⟩⟩⟩

end

inductive Fetch
  /-- `fetch_any_key`, by the peer that starts a rekey. -/
  | anyKey
  /-- `fetch_specific_key(id)`, by the peer that answers one. -/
  | specificKey (id : Uuid)
deriving DecidableEq

def authorityEnd : List Char := ['/', '\\', '?', '#']

/-- The path and the query reqwest sends for the URI `scheme://authority path?query#fragment`,
as hyper hands them to the simulator: the authority ends at the first of `authorityEnd`, an
empty path is `/`, and the fragment is not sent. The URL parser's percent-encoding and its
removal of dot segments are left out. -/
def requestTarget (uri : List Char) : List Char × Option (List Char) :=
  let target := (((afterFirst "://".toList uri).getD uri).dropWhile (· ∉ authorityEnd)).takeWhile
    (· ≠ '#')
  let path := target.takeWhile (· ≠ '?')
  (if path = [] then ['/'] else path,
    match target.dropWhile (· ≠ '?') with
    | [] => none
    | _ :: query => some query)

/-- A URL made of a scheme and a host only, with no path after the host. -/
def OriginOnly (url : String) : Prop :=
  ∃ scheme host, url.toList = scheme ++ "://".toList ++ host ∧ ':' ∉ scheme ∧
    ∀ c ∈ host, c ∉ authorityEnd

/-- A path segment the URL parser sends as it is: unreserved characters only, and not a dot
segment. -/
def PlainSegment (s : List Char) : Prop :=
  (∀ c ∈ s, c.isAlphanum ∨ c ∈ ['-', '.', '_', '~']) ∧ s ≠ ['.'] ∧ s ≠ ['.', '.']

instance (s : List Char) : Decidable (PlainSegment s) :=
  inferInstanceAs (Decidable ((∀ c ∈ s, c.isAlphanum ∨ c ∈ ['-', '.', '_', '~']) ∧ s ≠ ['.'] ∧
    s ≠ ['.', '.']))

section

variable (parseStr : String → Option Uuid) (toStr : Uuid → String) (url remoteSaeId : String)

def Fetch.uri : Fetch → String
  | .anyKey => fetchAnyKeyUri url remoteSaeId
  | .specificKey id => fetchSpecificKeyUri url remoteSaeId (toStr id)

def Fetch.request (f : Fetch) : List Char × Option (List Char) :=
  requestTarget (f.uri toStr url remoteSaeId).toList

/-- One fetch served by the simulator: what `fetch_key_internal` returns, and the counter
after it; `none` where either side panics. -/
def serve (counter : UInt64) (f : Fetch) : Option (Except String Etsi014Key × UInt64) :=
  (handleRequest parseStr (f.request toStr url remoteSaeId).1 (f.request toStr url remoteSaeId).2
    counter).bind fun r => (fetchKeyInternal (f.uri toStr url remoteSaeId) r.1.toHttp).map (·, r.2)

def serveAll : UInt64 → List Fetch → Option (List (Except String Etsi014Key) × UInt64)
  | c, [] => some ([], c)
  | c, f :: fs => (serve parseStr toStr url remoteSaeId c f).bind fun r =>
    (serveAll r.2 fs).map fun rs => (r.1 :: rs.1, rs.2)

def Fetch.pathQuery : Fetch → List Char × Option (List Char)
  | .anyKey => ("/api/v1/keys/".toList ++ remoteSaeId.toList ++ "/enc_keys".toList,
      some "number=1&key_length=256".toList)
  | .specificKey id => ("/api/v1/keys/".toList ++ remoteSaeId.toList ++ "/dec_keys".toList,
      some ("key_ID=".toList ++ (toStr id).toList))

end

/-! ## The device the protocol assumes -/

/-- A QKD device as the rekey protocol assumes one: the key of an id is `qkd` of it,
whichever peer asks, and `fetch_any_key` hands out the ids of a 64-bit counter. -/
structure Device where
  qkd : Uuid → Key
  counter : UInt64

def Device.fetch (d : Device) : Fetch → Etsi014Key × Device
  | .anyKey => (⟨Uuid.fromU128 d.counter.toNat, d.qkd (Uuid.fromU128 d.counter.toNat)⟩,
      ⟨d.qkd, d.counter + 1⟩)
  | .specificKey id => (⟨id, d.qkd id⟩, d)

def Device.run (d : Device) : List Fetch → List Etsi014Key × Device
  | [] => ([], d)
  | f :: fs => ((d.fetch f).1 :: ((d.fetch f).2.run fs).1, ((d.fetch f).2.run fs).2)

def anyKeyIds : List Fetch → List Etsi014Key → List Uuid
  | .anyKey :: fs, k :: ks => k.id :: anyKeyIds fs ks
  | .specificKey _ :: fs, _ :: ks => anyKeyIds fs ks
  | _, _ => []

theorem Device.fetch_qkd (d : Device) (f : Fetch) : (d.fetch f).2.qkd = d.qkd := by
  cases f <;> rfl

theorem Device.fetch_key (d : Device) (f : Fetch) :
    (d.fetch f).1.key = d.qkd (d.fetch f).1.id := by
  cases f <;> rfl

theorem Device.run_key (d : Device) (fs : List Fetch) :
    ∀ k ∈ (d.run fs).1, k.key = d.qkd k.id := by
  induction fs generalizing d with
  | nil => exact fun _ h => by cases h
  | cons f fs ih =>
    rintro k (_ | ⟨_, hk⟩)
    · exact d.fetch_key f
    · rw [ih _ k hk, Device.fetch_qkd]

theorem Device.run_specificKey (d : Device) (fs : List Fetch) :
    List.Forall₂ (fun f k => ∀ id, f = .specificKey id → k.id = id) fs (d.run fs).1 := by
  induction fs generalizing d with
  | nil => exact .nil
  | cons f fs ih => exact .cons (by rintro id rfl; rfl) (ih _)

theorem toNat_add_one (c : UInt64) : (c + 1).toNat = (c.toNat + 1) % 2 ^ 64 := by
  simp [UInt64.toNat, UInt64.add_def, BitVec.toNat_add]

/-- The `i`-th `fetch_any_key` of a run gets the counter's value plus `i`, modulo `2 ^ 64`. -/
theorem Device.anyKeyIds_run (d : Device) (fs : List Fetch) :
    anyKeyIds fs (d.run fs).1 = (List.range (fs.count .anyKey)).map fun i =>
      Uuid.fromU128 ((d.counter.toNat + i) % 2 ^ 64) := by
  induction fs generalizing d with
  | nil => rfl
  | cons f fs ih =>
    cases f with
    | anyKey =>
      have hc : d.counter.toNat < 2 ^ 64 := d.counter.toNat_lt_size
      have hd : (d.fetch .anyKey).2 = ⟨d.qkd, d.counter + 1⟩ := rfl
      rw [Device.run, anyKeyIds, hd, ih, List.count_cons_self, List.range_succ_eq_map,
        List.map_cons, List.map_map, Nat.add_zero, Nat.mod_eq_of_lt hc]
      refine congrArg _ (List.map_congr_left fun i _ => ?_)
      simp only [Function.comp, toNat_add_one]
      congr 1
      omega
    | specificKey id =>
      rw [List.count_cons_of_ne (fun h => by cases h)]
      exact ih d

theorem anyKeyIds_nodup (qkd : Uuid → Key) (c : UInt64) (fs : List Fetch)
    (h : fs.count .anyKey ≤ 2 ^ 64) : (anyKeyIds fs (Device.run ⟨qkd, c⟩ fs).1).Nodup := by
  rw [Device.anyKeyIds_run]
  refine (List.nodup_range _).map_on fun i hi j hj hij => ?_
  rw [List.mem_range] at hi hj
  have hc : c.toNat < 2 ^ 64 := c.toNat_lt_size
  have hlt : ∀ n, n % 2 ^ 64 < 2 ^ 128 := fun n => (Nat.mod_lt _ (by decide)).trans (by decide)
  have := Uuid.fromU128_injective (hlt _) (hlt _) hij
  dsimp only at this
  omega

/-! ## The simulator refines the device -/

theorem afterFirst_scheme {scheme : List Char} (hs : ':' ∉ scheme) (rest : List Char) :
    afterFirst "://".toList (scheme ++ "://".toList ++ rest) = some rest := by
  induction scheme with
  | nil => exact afterFirst_append _ rest
  | cons c scheme ih =>
    have hc : c ≠ ':' := fun h => hs (h ▸ List.mem_cons_self _ _)
    have hpre : "://".toList.isPrefixOf (c :: (scheme ++ "://".toList ++ rest)) = false := by
      show List.isPrefixOf [':', '/', '/'] _ = false
      simp [List.isPrefixOf, Ne.symm hc]
    unfold afterFirst
    rw [List.cons_append, List.cons_append, if_neg (by rw [hpre]; decide)]
    exact ih fun h => hs (List.mem_cons_of_mem _ h)

/-- After a URL of a scheme and a host, a path without `?` or `#` and a query without `#`
reach the simulator as they are. -/
theorem requestTarget_origin {scheme host : List Char} (hs : ':' ∉ scheme)
    (hh : ∀ c ∈ host, c ∉ authorityEnd) {path query : List Char}
    (hp : ∀ c ∈ path, c ≠ '?' ∧ c ≠ '#') (hq : '#' ∉ query) :
    requestTarget (scheme ++ "://".toList ++ (host ++ '/' :: (path ++ '?' :: query))) =
      ('/' :: path, some query) := by
  have htarget : ((host ++ '/' :: (path ++ '?' :: query)).dropWhile (· ∉ authorityEnd)).takeWhile
      (· ≠ '#') = '/' :: (path ++ '?' :: query) := by
    rw [List.dropWhile_append_of_pos fun c hc => decide_eq_true (hh c hc),
      List.dropWhile_cons_of_neg (by decide), List.takeWhile_eq_self_iff]
    intro c hc
    simp only [List.mem_cons, List.mem_append] at hc
    rcases hc with rfl | hc | rfl | hc
    · decide
    · exact decide_eq_true (hp c hc).2
    · decide
    · exact decide_eq_true fun h => hq (h ▸ hc)
  have hpath : ∀ c ∈ path, decide (c ≠ '?') = true := fun c hc => decide_eq_true (hp c hc).1
  simp only [requestTarget, afterFirst_scheme hs, Option.getD_some, htarget]
  rw [List.takeWhile_cons_of_pos (by decide), List.takeWhile_append_of_pos hpath,
    List.takeWhile_cons_of_neg (by decide), List.append_nil,
    List.dropWhile_cons_of_pos (by decide), List.dropWhile_append_of_pos hpath,
    List.dropWhile_cons_of_neg (by decide), if_neg (List.cons_ne_nil _ _)]

theorem PlainSegment.ne_query {s : List Char} (h : PlainSegment s) :
    ∀ c ∈ s, c ≠ '?' ∧ c ≠ '#' := fun c hc => by
  rcases h.1 c hc with h | h <;> constructor <;> rintro rfl <;> revert h <;> decide

theorem infix_of_sep {w a b : List Char} {c : Char} (hc : c ∉ w)
    (h : List.IsInfix w (a ++ c :: b)) : List.IsInfix w a ∨ List.IsInfix w b := by
  obtain ⟨s, t, hst⟩ := h
  rcases List.append_eq_append_iff.mp hst with ⟨a', rfl, -⟩ | ⟨c', hsw, hct⟩
  · exact .inl ⟨s, a', rfl⟩
  rcases c' with _ | ⟨x, c''⟩
  · exact .inl ⟨s, [], by simpa using hsw⟩
  obtain ⟨rfl, rfl⟩ := List.cons_eq_cons.mp hct
  rcases List.append_eq_append_iff.mp hsw with ⟨a'', rfl, rfl⟩ | ⟨d, rfl, hd⟩
  · exact absurd (List.mem_append_right _ (List.mem_cons_self _ _)) hc
  rcases d with _ | ⟨y, d⟩
  · exact absurd (by rw [List.nil_append] at hd; rw [← hd]; exact List.mem_cons_self _ _) hc
  obtain ⟨rfl, rfl⟩ := List.cons_eq_cons.mp hd
  exact .inr ⟨d, t, rfl⟩

theorem contains_of_suffix {s w : List Char} (p : List Char) (h : List.IsSuffix w s) :
    contains (p ++ s) w = true :=
  decide_eq_true (h.trans (List.suffix_append p s)).isInfix

section

variable (parseStr : String → Option Uuid) (toStr : Uuid → String) (url remoteSaeId : String)

/-- For a URL of a scheme and a host, an SAE id and key ids without `?` or `#`, the
simulator is handed the path and the query written after the URL. -/
theorem request_eq_pathQuery (hurl : OriginOnly url)
    (hsae : ∀ c ∈ remoteSaeId.toList, c ≠ '?' ∧ c ≠ '#') (f : Fetch)
    (hid : ∀ id, f = .specificKey id → '#' ∉ (toStr id).toList) :
    f.request toStr url remoteSaeId = f.pathQuery toStr remoteSaeId := by
  obtain ⟨scheme, host, hu, hs, hh⟩ := hurl
  have hpath : ∀ tail : List Char, (∀ c ∈ tail, c ≠ '?' ∧ c ≠ '#') →
      ∀ c ∈ "api/v1/keys/".toList ++ (remoteSaeId.toList ++ tail), c ≠ '?' ∧ c ≠ '#' :=
    fun _ ht => List.forall_mem_append.mpr ⟨by decide, List.forall_mem_append.mpr ⟨hsae, ht⟩⟩
  cases f with
  | anyKey =>
    have h := requestTarget_origin hs hh (hpath "/enc_keys".toList (by decide))
      (by decide : '#' ∉ "number=1&key_length=256".toList)
    simp only [String.toList, List.append_assoc] at h
    simp only [Fetch.request, Fetch.uri, fetchAnyKeyUri, String.toList, String.data_append,
      show url.data = _ from hu, List.append_assoc]
    exact h
  | specificKey id =>
    have h := requestTarget_origin hs hh (hpath "/dec_keys".toList (by decide))
      fun h => (List.mem_append.mp h).elim (by decide : '#' ∉ "key_ID=".toList) (hid id rfl)
    simp only [String.toList, List.append_assoc] at h
    simp only [Fetch.request, Fetch.uri, fetchSpecificKeyUri, String.toList, String.data_append,
      show url.data = _ from hu, List.append_assoc]
    exact h

theorem contains_anyKey_decKeys (hsae : ¬ List.IsInfix "dec_keys".toList remoteSaeId.toList) :
    contains (Fetch.anyKey.pathQuery toStr remoteSaeId).1 "dec_keys".toList = false := by
  rw [contains, decide_eq_false_iff_not]
  intro h
  change List.IsInfix _ ("/api/v1/keys".toList ++ '/' ::
    (remoteSaeId.toList ++ '/' :: "enc_keys".toList)) at h
  rcases infix_of_sep (by decide) h with h | h
  · exact absurd h (by decide)
  rcases infix_of_sep (by decide) h with h | h
  · exact hsae h
  · exact absurd h (by decide)

theorem contains_anyKey_encKeys :
    contains (Fetch.anyKey.pathQuery toStr remoteSaeId).1 "enc_keys".toList = true :=
  contains_of_suffix _ (by decide : List.IsSuffix "enc_keys".toList "/enc_keys".toList)

theorem contains_specificKey_decKeys (id : Uuid) :
    contains ((Fetch.specificKey id).pathQuery toStr remoteSaeId).1 "dec_keys".toList = true :=
  contains_of_suffix _ (by decide : List.IsSuffix "dec_keys".toList "/dec_keys".toList)

theorem isPrefixOf_pathQuery (f : Fetch) :
    "/api/v1/keys/".toList.isPrefixOf (f.pathQuery toStr remoteSaeId).1 = true := by
  cases f <;> exact List.isPrefixOf_iff_prefix.mpr ⟨_, (List.append_assoc _ _ _).symm⟩

theorem keyId_pathQuery (c : UInt64) (f : Fetch)
    (hround : ∀ id, f = .specificKey id → parseStr (toStr id) = some id)
    (hsae : ¬ List.IsInfix "dec_keys".toList remoteSaeId.toList) :
    keyId parseStr (f.pathQuery toStr remoteSaeId).1 (f.pathQuery toStr remoteSaeId).2 c =
      .ok ((Device.fetch ⟨keyInput, c⟩ f).1.id,
        (Device.fetch ⟨keyInput, c⟩ f).2.counter) := by
  unfold keyId
  cases f with
  | anyKey =>
    rw [if_neg (by rw [contains_anyKey_decKeys toStr remoteSaeId hsae]; decide)]
    rfl
  | specificKey id =>
    rw [if_pos (contains_specificKey_decKeys toStr remoteSaeId id)]
    simp only [Fetch.pathQuery, afterFirst_append]
    rw [show (⟨(toStr id).toList⟩ : String) = toStr id from rfl, hround id rfl]
    rfl

theorem routed_pathQuery (f : Fetch) :
    (!contains (f.pathQuery toStr remoteSaeId).1 "dec_keys".toList &&
      !contains (f.pathQuery toStr remoteSaeId).1 "enc_keys".toList) = false := by
  cases f with
  | anyKey => rw [contains_anyKey_encKeys]; simp
  | specificKey id => rw [contains_specificKey_decKeys]; rfl

/-- One fetch served by the simulator is one fetch of the device whose key function is
`key_input`. -/
theorem serve_eq (c : UInt64) (f : Fetch)
    (hround : ∀ id, f = .specificKey id → parseStr (toStr id) = some id ∧ '#' ∉ (toStr id).toList)
    (hurl : OriginOnly url) (hplain : PlainSegment remoteSaeId.toList)
    (hsae : ¬ List.IsInfix "dec_keys".toList remoteSaeId.toList) :
    serve parseStr toStr url remoteSaeId c f =
      some (.ok (Device.fetch ⟨keyInput, c⟩ f).1,
        (Device.fetch ⟨keyInput, c⟩ f).2.counter) := by
  rw [serve, request_eq_pathQuery toStr url remoteSaeId hurl hplain.ne_query f
      fun id h => (hround id h).2, handleRequest,
    if_pos (isPrefixOf_pathQuery toStr remoteSaeId f),
    handleKeys_of_keyId parseStr (routed_pathQuery toStr remoteSaeId f)
      (keyId_pathQuery parseStr toStr remoteSaeId c f (fun id h => (hround id h).1) hsae)]
  have hkey : keyInput (Device.fetch ⟨keyInput, c⟩ f).1.id =
      (Device.fetch ⟨keyInput, c⟩ f).1.key :=
    (Device.fetch_key ⟨keyInput, c⟩ f).symm
  simp only [Option.some_bind, Response.toHttp]
  rw [hkey, fetchKeyInternal_encodeBlocks]
  rfl

/-- The simulator and the peers' fetches refine the device: a run of fetches served by the
simulator returns what the device returns. -/
theorem serveAll_eq_run (c : UInt64) (fs : List Fetch)
    (hround : ∀ id, Fetch.specificKey id ∈ fs →
      parseStr (toStr id) = some id ∧ '#' ∉ (toStr id).toList)
    (hurl : OriginOnly url) (hplain : PlainSegment remoteSaeId.toList)
    (hsae : ¬ List.IsInfix "dec_keys".toList remoteSaeId.toList) :
    serveAll parseStr toStr url remoteSaeId c fs =
      some ((Device.run ⟨keyInput, c⟩ fs).1.map .ok,
        (Device.run ⟨keyInput, c⟩ fs).2.counter) := by
  induction fs generalizing c with
  | nil => rfl
  | cons f fs ih =>
    have hd : (Device.fetch ⟨keyInput, c⟩ f).2 =
        ⟨keyInput, (Device.fetch ⟨keyInput, c⟩ f).2.counter⟩ := by
      cases f <;> rfl
    rw [serveAll, serve_eq parseStr toStr url remoteSaeId c f
      (fun id h => hround id (h ▸ List.mem_cons_self _ _)) hurl hplain hsae, Option.some_bind,
      ih _ fun id h => hround id (List.mem_cons_of_mem _ h), Device.run, hd]
    rfl

end

theorem origin_kme : OriginOnly "https://kme" :=
  ⟨"https".toList, "kme".toList, rfl, by decide, by decide⟩

end Daisyway.Simulator
