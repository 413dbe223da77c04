import Daisyway.Crypto.Basics
import Daisyway.Util.KeyFile

/-! # Configuration and wiring

`Daisyway::from_config` loads the PSK (the zero key when no file is named), decodes both
WireGuard peer ids, takes exactly one sink, `outfile.path` or, on Linux,
`wireguard.interface`, wraps it in a deadman that erases after `rekey_interval + 30`
seconds (wrapping as a `u64`), and hands it all to the driver the `[peer]` section names.
A run is in `ExceptT String Option`: an error is the text `anyhow` displays and `none` a
panic; the ETSI client and the WireGuard socket are parameters.

`from_config` panics only where loading the PSK file does, and the WireGuard sink sets the
preshared key of the peer id the key derivation uses. The PSK message is the literal text
`{file:?}`, which nothing formats, and the WireGuard one reads "Could start".
-/

set_option autoImplicit false

namespace Daisyway.Setup

/-- `REKEY_INTERVAL`, in seconds. -/
def rekeyInterval : UInt64 := 120

/-- The `[etsi014]` field `from_config` reads itself. -/
structure Etsi014Config where
  intervalSecs : Option UInt64

structure WireGuardConfig where
  localPeerId : String
  remotePeerId : String
  interface : Option String

structure OutfileConfig where
  path : String

inductive DaisywayTcpParticipantConfig
  | client (endpoint : String)
  | server (listen : String)

/-- `PeerConfig`; the PSK file is what `File::open` and the reads of it give. -/
structure PeerConfig where
  participant : DaisywayTcpParticipantConfig
  pskFile : Option (Except IoError (List ReadResult))

structure DaisywayConfig where
  etsi014 : Etsi014Config
  wireguard : WireGuardConfig
  outfile : Option OutfileConfig
  peer : PeerConfig

/-- The `rekey_interval` of `from_config`. -/
def DaisywayConfig.rekeyInterval (cfg : DaisywayConfig) : UInt64 :=
  cfg.etsi014.intervalSecs.getD Setup.rekeyInterval

/-- What the WireGuard control socket answers: whether `WgSocket::connect` succeeds, and
the public keys of the peers of each interface `get_device` reaches. -/
structure WgSocket where
  connects : Bool
  device : String → Option (List PeerId)

/-- `WireGuardOskHandler`: the interface, and the peer whose preshared key it sets. -/
structure WireGuardOskHandler where
  interface : String
  peerId : Key

/-- The sink the deadman owns: an `OutfileOskHandler` or a `WireGuardOskHandler`. -/
inductive OskSink
  | outfile (path : String)
  | wireGuard (handler : WireGuardOskHandler)

/-- `OskDeadman::start(erase_after, make_broker)`: `erase_after` in seconds, and the broker. -/
structure OskDeadman where
  eraseAfter : UInt64
  broker : OskSink

def startDeadman (o : OskSink) (rekeyInterval : UInt64) : OskDeadman := ⟨rekeyInterval + 30, o⟩

/-- `DaisywayTcpParticipant`: the driver of one role, with what it is built from. -/
inductive DaisywayTcpParticipant
  | client (protocolParams : DaisywayProtocolParameters) (endpoint : String)
      (oskHandler : OskDeadman)
  | server (protocolParams : DaisywayProtocolParameters) (listen : String)
      (oskHandler : OskDeadman) (rekeyInterval : UInt64)

def DaisywayTcpParticipant.fromConfig (protocolParams : DaisywayProtocolParameters)
    (config : DaisywayTcpParticipantConfig) (oskHandler : OskDeadman) (rekeyInterval : UInt64) :
    DaisywayTcpParticipant :=
  match config with
  | .client endpoint => .client protocolParams endpoint oskHandler
  | .server listen => .server protocolParams listen oskHandler rekeyInterval

structure Daisyway where
  participant : DaisywayTcpParticipant

/-- `str::as_bytes`: the UTF-8 bytes. -/
def asBytes (s : String) : List UInt8 := s.toUTF8.data.toList

/-- `char::escape_debug` on the characters a `{:?}` of a string escapes below 128. -/
def escapeDebug (c : Char) : String :=
  if c = '\x00' then "\\0"
  else if c = '\t' then "\\t"
  else if c = '\r' then "\\r"
  else if c = '\n' then "\\n"
  else if c = '\\' then "\\\\"
  else if c = '"' then "\\\""
  else if c.toNat < 32 ∨ c.toNat = 127 then
    "\\u\x7b" ++ String.mk (Nat.toDigits 16 c.toNat) ++ "\x7d"
  else c.toString

/-- `{:?}` of a string, for text whose other characters are printable. -/
def debugStr (s : String) : String := "\"" ++ String.join (s.toList.map escapeDebug) ++ "\""

/-- `Context::context(msg)` on a call that can fail or panic: its error becomes `msg`. -/
def context {ε α : Type} (msg : String) (x : Option (Except ε α)) : ExceptT String Option α :=
  ExceptT.mk (x.map (·.mapError fun _ => msg))

/-- `WireGuardOskHandler::setup`; `none` where `expect("Invalid peer_id")` panics. -/
def WireGuardOskHandler.setup (socket : WgSocket) (peerId interface : String) :
    Option (Except String WireGuardOskHandler) :=
  match base64ToKey (asBytes peerId) with
  | .error _ => none
  | .ok peerIdU8 => some <|
    if !socket.connects then .error "Failed to connect to WireGuard control socket."
    else match socket.device interface with
      | none => .error ("Failed to access WireGuard interface " ++ interface)
      | some peers =>
        if peerIdU8 ∈ peers then .ok ⟨interface, peerIdU8⟩
        else .error ("Could not find WireGuard peer " ++ peerId)

section

variable (linux : Bool) (etsiClient : Except String Unit) (socket : WgSocket)

/-- The `match` on `wireguard.interface` and `outfile` in `from_config`, on Linux or not. -/
def oskHandler (cfg : DaisywayConfig) : ExceptT String Option OskDeadman :=
  match cfg.wireguard.interface, cfg.outfile with
  | none, none => throw ("You need to specify either the wireguard.interface or outfile.path " ++
      "configuration option")
  | some _, some _ => throw ("You can not specify both the wireguard.interface and " ++
      "outfile.path configuration options")
  | none, some ⟨path⟩ => pure (startDeadman (.outfile path) cfg.rekeyInterval)
  | some interface, none =>
    if linux then do
      let handler ← context "Could start WireGuard key handler"
        (WireGuardOskHandler.setup socket cfg.wireguard.remotePeerId interface)
      pure (startDeadman (.wireGuard handler) cfg.rekeyInterval)
    else throw ("Directly interfacing with WireGuard is only supported on Linux. " ++
      "Please use the outfile configuration option instead.")

/-- The PSK of `from_config`: the file's key, or the zero key when no file is named. -/
def loadPsk (pskFile : Option (Except IoError (List ReadResult))) : ExceptT String Option Key :=
  match pskFile with
  | some file => context "Could not load PSK file from \x7bfile:?\x7d" (loadBase64KeyFile file)
  | none => pure (Bytes.zeroed keyLength)

/-- `base64_to_key` of a peer id, with the context `from_config` gives its failure. -/
def decodePeerId (which text : String) : ExceptT String Option Key :=
  context ("Could not decode WireGuard " ++ which ++ " peer id " ++ debugStr text)
    (some (base64ToKey (asBytes text)))

def Daisyway.fromConfig (cfg : DaisywayConfig) : ExceptT String Option Daisyway := do
  let psk ← loadPsk cfg.peer.pskFile
  let localPeerId ← decodePeerId "local" cfg.wireguard.localPeerId
  let remotePeerId ← decodePeerId "remote" cfg.wireguard.remotePeerId
  ExceptT.mk (some etsiClient)
  let oskHandler ← oskHandler linux socket cfg
  pure ⟨.fromConfig ⟨psk, localPeerId, remotePeerId⟩ cfg.peer.participant oskHandler
    cfg.rekeyInterval⟩

end

/-! ## Steps that fail or panic -/

section

variable {ε α β : Type} {x : ExceptT ε Option α} {f : α → ExceptT ε Option β}

@[simp]
theorem run_mk (y : Option (Except ε α)) : (ExceptT.mk y).run = y := rfl

@[simp]
theorem run_throw (e : ε) : (throw e : ExceptT ε Option α).run = some (.error e) := rfl

theorem bind_eq_ok {b : β} :
    (x >>= f).run = some (.ok b) ↔ ∃ a, x.run = some (.ok a) ∧ (f a).run = some (.ok b) := by
  rcases hx : x.run with _ | _ | a <;> simp [ExceptT.run_bind, hx]

theorem bind_eq_error {e : ε} : (x >>= f).run = some (.error e) ↔
    x.run = some (.error e) ∨ ∃ a, x.run = some (.ok a) ∧ (f a).run = some (.error e) := by
  rcases hx : x.run with _ | _ | a <;> simp [ExceptT.run_bind, hx]

theorem bind_eq_none :
    (x >>= f).run = none ↔ x.run = none ∨ ∃ a, x.run = some (.ok a) ∧ (f a).run = none := by
  rcases hx : x.run with _ | _ | a <;> simp [ExceptT.run_bind, hx]

theorem map_eq_ok {g : α → β} {b : β} :
    (g <$> x).run = some (.ok b) ↔ ∃ a, x.run = some (.ok a) ∧ g a = b := by
  rcases hx : x.run with _ | _ | a <;> simp [ExceptT.run_map, hx, Except.map]

theorem map_eq_error {g : α → β} {e : ε} :
    (g <$> x).run = some (.error e) ↔ x.run = some (.error e) := by
  rcases hx : x.run with _ | _ | a <;> simp [ExceptT.run_map, hx, Except.map]

theorem map_eq_none {g : α → β} : (g <$> x).run = none ↔ x.run = none := by
  rcases hx : x.run with _ | _ | a <;> simp [ExceptT.run_map, hx]

end

section

variable {ε α : Type} {msg : String} {x : Option (Except ε α)}

theorem context_eq_ok {a : α} : (context msg x).run = some (.ok a) ↔ x = some (.ok a) := by
  rcases x with _ | _ | _ <;> simp [context, Except.mapError]

theorem context_eq_error {m : String} :
    (context msg x).run = some (.error m) ↔ m = msg ∧ ∃ e, x = some (.error e) := by
  rcases x with _ | _ | _ <;> simp [context, Except.mapError, eq_comm]

theorem context_eq_none : (context msg x).run = none ↔ x = none := by
  rcases x with _ | _ | _ <;> simp [context]

end

/-- `setup` panics exactly on a peer id that does not decode; otherwise it hands back the
decoded id as the peer to update, or fails. -/
theorem WireGuardOskHandler.setup_spec (socket : WgSocket) (peerId interface : String) :
    (WireGuardOskHandler.setup socket peerId interface = none ↔
        ∃ e, base64ToKey (asBytes peerId) = .error e) ∧
      ∀ h, WireGuardOskHandler.setup socket peerId interface = some (.ok h) →
        base64ToKey (asBytes peerId) = .ok h.peerId ∧ h.interface = interface := by
  unfold WireGuardOskHandler.setup
  rcases hb : base64ToKey (asBytes peerId) with e | k
  · exact ⟨iff_of_true rfl ⟨e, rfl⟩, fun _ h => by cases h⟩
  refine ⟨iff_of_false (by simp) (by simp), fun h hs => ?_⟩
  simp only [Option.some.injEq] at hs
  split_ifs at hs
  split at hs
  · cases hs
  · split_ifs at hs
    cases hs
    exact ⟨rfl, rfl⟩

section

variable (linux : Bool) (etsiClient : Except String Unit) (socket : WgSocket)

theorem loadPsk_eq_ok_iff (pskFile : Option (Except IoError (List ReadResult))) (psk : Key) :
    (loadPsk pskFile).run = some (.ok psk) ↔ (pskFile = none ∧ psk = Bytes.zeroed keyLength) ∨
      ∃ file, pskFile = some file ∧ loadBase64KeyFile file = some (.ok psk) := by
  cases pskFile with
  | none => simp [loadPsk, ExceptT.run_pure, eq_comm]
  | some file => simp [loadPsk, context_eq_ok]

theorem decodePeerId_eq_ok_iff (which text : String) (k : Key) :
    (decodePeerId which text).run = some (.ok k) ↔ base64ToKey (asBytes text) = .ok k := by
  simp [decodePeerId, context_eq_ok]

theorem oskHandler_eq_ok_iff (cfg : DaisywayConfig) (o : OskDeadman) :
    (oskHandler linux socket cfg).run = some (.ok o) ↔
      (cfg.wireguard.interface = none ∧ ∃ path, cfg.outfile = some ⟨path⟩ ∧
        o = startDeadman (.outfile path) cfg.rekeyInterval) ∨
      (linux = true ∧ cfg.outfile = none ∧
        ∃ interface h, cfg.wireguard.interface = some interface ∧
          WireGuardOskHandler.setup socket cfg.wireguard.remotePeerId interface = some (.ok h) ∧
          o = startDeadman (.wireGuard h) cfg.rekeyInterval) := by
  unfold oskHandler
  split
  · simp_all
  · simp_all
  · simp_all [ExceptT.run_pure, eq_comm]
  · rename_i _ interface hi ho
    cases linux
    · simp [hi]
    · simp only [↓reduceIte, bind_pure_comp, map_eq_ok, context_eq_ok]
      simp [hi, ho, eq_comm]

theorem oskHandler_ne_none (cfg : DaisywayConfig) {k : Key}
    (hr : base64ToKey (asBytes cfg.wireguard.remotePeerId) = .ok k) :
    (oskHandler linux socket cfg).run ≠ none := by
  unfold oskHandler
  split
  · simp
  · simp
  · simp [ExceptT.run_pure]
  · rename_i _ interface _ _
    cases linux
    · simp
    · simp only [ne_eq, ↓reduceIte, bind_pure_comp, map_eq_none, context_eq_none,
        (WireGuardOskHandler.setup_spec _ _ _).1, hr]
      simp

theorem startDeadman_eraseAfter (sink : OskSink) (rekeyInterval : UInt64) :
    (startDeadman sink rekeyInterval).eraseAfter.toNat = (rekeyInterval.toNat + 30) % 2 ^ 64 := by
  simp [startDeadman, UInt64.toNat, UInt64.add_def, BitVec.toNat_add]

/-- `from_config` succeeds exactly when every step does, and then builds the driver the
`[peer]` section names from the PSK, the two peer ids and the sink's deadman. -/
theorem fromConfig_eq_ok_iff (cfg : DaisywayConfig) (d : Daisyway) :
    (Daisyway.fromConfig linux etsiClient socket cfg).run = some (.ok d) ↔
      ∃ psk localPeerId remotePeerId o, (loadPsk cfg.peer.pskFile).run = some (.ok psk) ∧
        base64ToKey (asBytes cfg.wireguard.localPeerId) = .ok localPeerId ∧
        base64ToKey (asBytes cfg.wireguard.remotePeerId) = .ok remotePeerId ∧
        etsiClient = .ok () ∧ (oskHandler linux socket cfg).run = some (.ok o) ∧
        d = ⟨.fromConfig ⟨psk, localPeerId, remotePeerId⟩ cfg.peer.participant o
          cfg.rekeyInterval⟩ := by
  simp only [Daisyway.fromConfig, bind_eq_ok, decodePeerId_eq_ok_iff, ExceptT.run_pure,
    Option.pure_def, Option.some.injEq, Except.ok.injEq]
  constructor
  · rintro ⟨psk, hp, l, hl, r, hr, ⟨⟩, he, o, ho, rfl⟩
    exact ⟨psk, l, r, o, hp, hl, hr, Option.some.inj he, ho, rfl⟩
  · rintro ⟨psk, l, r, o, hp, hl, hr, rfl, ho, rfl⟩
    exact ⟨psk, hp, l, hl, r, hr, (), rfl, o, ho, rfl⟩

/-- Started, a daisyway has exactly one sink, `wireguard.interface` only on Linux, and it is
the configured one: the outfile at `outfile.path`, or the WireGuard interface with the remote
peer, the same id the key derivation uses. Its PSK is the zero key when no file is named,
its peer ids are the configured texts decoded, and the sink's deadman erases after
`rekey_interval + 30` seconds modulo `2 ^ 64`, `rekey_interval` being `interval_secs` or
120, the interval a server rekeys at. -/
theorem fromConfig_spec (cfg : DaisywayConfig) (d : Daisyway)
    (h : (Daisyway.fromConfig linux etsiClient socket cfg).run = some (.ok d)) :
    cfg.wireguard.interface.isSome ≠ cfg.outfile.isSome ∧
      (cfg.wireguard.interface.isSome = true → linux = true) ∧
      ∃ params o, d.participant = .fromConfig params cfg.peer.participant o cfg.rekeyInterval ∧
        (cfg.peer.pskFile = none → params.psk = Bytes.zeroed keyLength) ∧
        base64ToKey (asBytes cfg.wireguard.localPeerId) = .ok params.localPeerId ∧
        base64ToKey (asBytes cfg.wireguard.remotePeerId) = .ok params.remotePeerId ∧
        (∀ path, o.broker = .outfile path → cfg.outfile = some ⟨path⟩) ∧
        (∀ w, o.broker = .wireGuard w →
          cfg.wireguard.interface = some w.interface ∧ w.peerId = params.remotePeerId) ∧
        o.eraseAfter.toNat = (cfg.rekeyInterval.toNat + 30) % 2 ^ 64 := by
  obtain ⟨psk, l, r, o, hp, hl, hr, -, ho, rfl⟩ :=
    (fromConfig_eq_ok_iff linux etsiClient socket cfg d).mp h
  have hpsk : cfg.peer.pskFile = none → psk = Bytes.zeroed keyLength := fun hn => by
    rw [hn] at hp
    exact ((loadPsk_eq_ok_iff none psk).mp hp).elim (·.2) fun ⟨_, h, _⟩ => by cases h
  rcases (oskHandler_eq_ok_iff linux socket cfg o).mp ho with
    ⟨hi, path, hout, rfl⟩ | ⟨hlin, hout, interface, w, hi, hs, rfl⟩
  · refine ⟨by simp [hi, hout], by simp [hi], ⟨psk, l, r⟩, _, rfl, hpsk, hl, hr,
      fun _ hp => (by cases hp; exact hout), fun _ hw => (by cases hw),
      startDeadman_eraseAfter _ _⟩
  · obtain ⟨hk, rfl⟩ := (WireGuardOskHandler.setup_spec _ _ _).2 w hs
    refine ⟨by simp [hi, hout], fun _ => hlin, ⟨psk, l, r⟩, _, rfl, hpsk, hl, hr,
      fun _ hp => (by cases hp), fun _ hw => ?_, startDeadman_eraseAfter _ _⟩
    cases hw
    exact ⟨hi, Except.ok.inj (hk.symm.trans hr)⟩

/-- `from_config` panics only where loading the PSK file does: `WireGuardOskHandler::setup`,
which panics on a peer id that does not decode, is reached only once `from_config` has
decoded that id itself. -/
theorem fromConfig_eq_none_iff (cfg : DaisywayConfig) :
    (Daisyway.fromConfig linux etsiClient socket cfg).run = none ↔
      ∃ file, cfg.peer.pskFile = some file ∧ loadBase64KeyFile file = none := by
  simp only [Daisyway.fromConfig, bind_eq_none, ExceptT.run_pure, Option.pure_def, reduceCtorEq,
    and_false, exists_false, or_false]
  constructor
  · rintro (hp | ⟨psk, -, hl | ⟨l, -, hr | ⟨r, hr, he | ⟨u, -, ho⟩⟩⟩⟩)
    · cases hf : cfg.peer.pskFile with
      | none => simp [loadPsk, hf, ExceptT.run_pure] at hp
      | some file => exact ⟨file, rfl, context_eq_none.mp (by simpa [loadPsk, hf] using hp)⟩
    · simp [decodePeerId, context_eq_none] at hl
    · simp [decodePeerId, context_eq_none] at hr
    · simp at he
    · exact absurd ho (oskHandler_ne_none linux socket cfg
        ((decodePeerId_eq_ok_iff "remote" _ r).mp hr))
  · rintro ⟨file, hf, hn⟩
    exact .inl (by simp [loadPsk, hf, context_eq_none, hn])

/-! ## Its errors -/

theorem loadPsk_eq_error_iff (pskFile : Option (Except IoError (List ReadResult))) (msg : String) :
    (loadPsk pskFile).run = some (.error msg) ↔
      msg = "Could not load PSK file from \x7bfile:?\x7d" ∧
        ∃ file e, pskFile = some file ∧ loadBase64KeyFile file = some (.error e) := by
  cases pskFile with
  | none => simp [loadPsk, ExceptT.run_pure]
  | some file => simp [loadPsk, context_eq_error]

theorem decodePeerId_eq_error_iff (which text msg : String) :
    (decodePeerId which text).run = some (.error msg) ↔
      msg = "Could not decode WireGuard " ++ which ++ " peer id " ++ debugStr text ∧
        ∃ e, base64ToKey (asBytes text) = .error e := by
  simp [decodePeerId, context_eq_error]

theorem oskHandler_eq_error_iff (cfg : DaisywayConfig) (msg : String) :
    (oskHandler linux socket cfg).run = some (.error msg) ↔
      (cfg.wireguard.interface = none ∧ cfg.outfile = none ∧
        msg = "You need to specify either the wireguard.interface or outfile.path " ++
          "configuration option") ∨
      (cfg.wireguard.interface.isSome = true ∧ cfg.outfile.isSome = true ∧
        msg = "You can not specify both the wireguard.interface and " ++
          "outfile.path configuration options") ∨
      (linux = false ∧ cfg.wireguard.interface.isSome = true ∧ cfg.outfile = none ∧
        msg = "Directly interfacing with WireGuard is only supported on Linux. " ++
          "Please use the outfile configuration option instead.") ∨
      (linux = true ∧ cfg.outfile = none ∧
        ∃ interface e, cfg.wireguard.interface = some interface ∧
          WireGuardOskHandler.setup socket cfg.wireguard.remotePeerId interface =
            some (.error e) ∧
          msg = "Could start WireGuard key handler") := by
  unfold oskHandler
  split
  · simp_all [eq_comm]
  · simp_all [eq_comm]
  · simp_all [ExceptT.run_pure]
  · rename_i _ interface hi ho
    cases linux
    · simp [hi, ho, eq_comm]
    · simp only [↓reduceIte, bind_pure_comp, map_eq_error, context_eq_error]
      simp [hi, ho, eq_comm, and_comm]

/-- `from_config` fails with the message of the first step that fails. -/
theorem fromConfig_eq_error_iff (cfg : DaisywayConfig) (msg : String) :
    (Daisyway.fromConfig linux etsiClient socket cfg).run = some (.error msg) ↔
      (loadPsk cfg.peer.pskFile).run = some (.error msg) ∨
      ∃ psk, (loadPsk cfg.peer.pskFile).run = some (.ok psk) ∧
        ((decodePeerId "local" cfg.wireguard.localPeerId).run = some (.error msg) ∨
          ∃ l, base64ToKey (asBytes cfg.wireguard.localPeerId) = .ok l ∧
            ((decodePeerId "remote" cfg.wireguard.remotePeerId).run = some (.error msg) ∨
              ∃ r, base64ToKey (asBytes cfg.wireguard.remotePeerId) = .ok r ∧
                (etsiClient = .error msg ∨
                  etsiClient = .ok () ∧ (oskHandler linux socket cfg).run = some (.error msg)))) := by
  simp only [Daisyway.fromConfig, bind_eq_error, decodePeerId_eq_ok_iff, ExceptT.run_pure,
    Option.pure_def, run_mk, Option.some.injEq, reduceCtorEq, and_false, exists_false, or_false,
    Unique.exists_iff]

end

end Daisyway.Setup
