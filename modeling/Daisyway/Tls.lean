import Daisyway.Setup

/-! # The ETSI 014 client's TLS

`Etsi014Connection::from_config` builds its HTTPS client on `configure_rustls`, which
installs rustls's provider as the process default (a second install panics), loads
`tls_cacert` into an empty root store, reads the client certificate and key, and under
`danger_allow_insecure_no_server_name_certificates` uses `NoServerNameVerification`, which
accepts a certificate WebPKI rejects only for its names. Files and libraries are `TlsEnv`,
and WebPKI is its two checks, `WebPki`, carrying the two facts of it the results use.

The root store holds the pinned certificate or nothing: without `tls_cacert`, `from_config`
fails under the danger flag and otherwise builds a client that rejects every server.
-/

set_option autoImplicit false

namespace Daisyway.Tls

open Setup

structure Certificate where
  der : List UInt8
deriving DecidableEq

structure PrivateKey where
  der : List UInt8
deriving DecidableEq

/-- A WebPKI `TrustAnchor`: the subject and public key `RootCertStore::add` takes from a
certificate. -/
structure TrustAnchor where
  subject : List UInt8
  subjectPublicKeyInfo : List UInt8
deriving DecidableEq

/-- The `rustls::CertificateError`s `NoServerNameVerification` tells apart; the other
variants (`UnknownIssuer`, `Expired`, `BadSignature`, ...) are `other`, by name. -/
inductive CertificateError
  | notValidForName
  | notValidForNameContext (expected : String) (presented : List String)
  | other (name : String)
deriving DecidableEq

/-- `rustls::Error`: an invalid certificate, or another error by its text. -/
inductive RustlsError
  | invalidCertificate (certError : CertificateError)
  | other (text : String)
deriving DecidableEq

def RustlsError.isNameMismatch : RustlsError → Bool
  | .invalidCertificate .notValidForName => true
  | .invalidCertificate (.notValidForNameContext _ _) => true
  | _ => false

/-- What `verify_server_cert` is given: the end entity, the intermediates, the name the
client connects to and the time. The OCSP response is left out: WebPKI does not check it. -/
structure ServerCert where
  endEntity : Certificate
  intermediates : List Certificate
  serverName : String
  now : ℕ

/-- WebPKI's two checks, in the order `WebPkiServerVerifier::verify_server_cert` makes them:
that the chain leads to one of the roots (parsing, validity and revocation included), then
that the end entity is valid for the server name. The first never fails for a name, and
finds no chain to an empty store. -/
structure WebPki where
  verifyServerCertSignedByTrustAnchor : List TrustAnchor → ServerCert → Except RustlsError Unit
  verifyServerName : ServerCert → Except RustlsError Unit
  signedByTrustAnchor_isNameMismatch : ∀ roots c e,
    verifyServerCertSignedByTrustAnchor roots c = .error e → e.isNameMismatch = false
  signedByTrustAnchor_nil : ∀ c, verifyServerCertSignedByTrustAnchor [] c ≠ .ok ()

structure WebPkiServerVerifier where
  roots : List TrustAnchor

/-- `WebPkiServerVerifier::builder(roots).build()`, with no CRLs: an empty store is refused
with `VerifierBuilderError::NoRootAnchors`, as rustls displays it. -/
def WebPkiServerVerifier.build (roots : List TrustAnchor) : Except String WebPkiServerVerifier :=
  if roots.isEmpty then .error "no root trust anchors were provided" else .ok ⟨roots⟩

def WebPkiServerVerifier.verifyServerCert (w : WebPki) (v : WebPkiServerVerifier)
    (c : ServerCert) : Except RustlsError Unit := do
  w.verifyServerCertSignedByTrustAnchor v.roots c
  w.verifyServerName c

structure NoServerNameVerification where
  inner : WebPkiServerVerifier

def NoServerNameVerification.fromRoots (roots : List TrustAnchor) :
    Except String NoServerNameVerification := do
  let inner ← WebPkiServerVerifier.build roots
  pure ⟨inner⟩

def NoServerNameVerification.verifyServerCert (w : WebPki) (v : NoServerNameVerification)
    (c : ServerCert) : Except RustlsError Unit :=
  match v.inner.verifyServerCert w c with
  | .ok scv => .ok scv
  | .error (.invalidCertificate certError) =>
    match certError with
    | .notValidForName => .ok ()
    | .notValidForNameContext _ _ => .ok ()
    | _ => .error (.invalidCertificate certError)
  | .error e => .error e

inductive ServerCertVerifier
  | webPki (v : WebPkiServerVerifier)
  | noServerNameVerification (v : NoServerNameVerification)

def ServerCertVerifier.verifyServerCert (w : WebPki) :
    ServerCertVerifier → ServerCert → Except RustlsError Unit
  | .webPki v => v.verifyServerCert w
  | .noServerNameVerification v => v.verifyServerCert w

/-- `rustls::ClientConfig`: the client certificate chain and key, if any, and the server
certificate verifier. -/
structure ClientConfig where
  clientAuth : Option (List Certificate × PrivateKey)
  verifier : ServerCertVerifier

structure ClientAuth where
  tlsCert : String
  tlsKey : String

/-- The fields of `Etsi014Config` that `Etsi014Connection::from_config` reads. -/
structure Etsi014Config where
  url : String
  remoteSaeId : String
  tlsCacert : Option String
  clientAuth : Option ClientAuth
  dangerAllowInsecureNoServerNameCertificates : Bool

/-- What the files and the libraries give `configure_rustls` and `from_config`. -/
structure TlsEnv where
  /-- `CertificateDer::from_pem_file`. -/
  certFromPemFile : String → Except String Certificate
  /-- `PrivateKeyDer::from_pem_file`. -/
  keyFromPemFile : String → Except String PrivateKey
  /-- The trust anchor `RootCertStore::add` takes from a certificate, or why there is none. -/
  anchorFromTrustedCert : Certificate → Except String TrustAnchor
  /-- `with_client_auth_cert`, failing as rustls displays its error. -/
  withClientAuthCert : List Certificate → PrivateKey → Except String Unit
  /-- reqwest's `ClientBuilder::build` over the preconfigured TLS, or its own. -/
  build : Option ClientConfig → Except String Unit

/-- `Etsi014Connection`; the reqwest client is the TLS configuration it was built over,
`none` for reqwest's own. -/
structure Etsi014Connection where
  url : String
  remoteSaeId : String
  client : Option ClientConfig

section

variable (env : TlsEnv)

/-- "Load CA certificate if provided", in `configure_rustls`. -/
def loadRoots (config : Etsi014Config) : ExceptT String Option (List TrustAnchor) :=
  match config.tlsCacert with
  | none => pure []
  | some cacertPath => do
    let cacert ← context ("Failed to read TLS CA certificate from file " ++ debugStr cacertPath)
      (some (env.certFromPemFile cacertPath))
    let anchor ← context "Failed to add TLS CA certificate to RootCertStore"
      (some (env.anchorFromTrustedCert cacert))
    pure [anchor]

/-- "Handle client authentication if configured", in `configure_rustls`. -/
def loadClientAuth (config : Etsi014Config) :
    ExceptT String Option (Option (List Certificate × PrivateKey)) :=
  match config.clientAuth with
  | none => pure none
  | some ⟨certPath, keyPath⟩ => do
    let cert ← context ("Failed to read TLS client certificate from file " ++ debugStr certPath)
      (some (env.certFromPemFile certPath))
    let key ← context ("Failed to read TLS client key from file " ++ debugStr keyPath)
      (some (env.keyFromPemFile keyPath))
    ExceptT.mk (some (env.withClientAuthCert [cert] key))
    pure (some ([cert], key))

/-- "Allow insecure certificates if configured", in `configure_rustls`; without the flag the
verifier is the one `with_root_certificates` builds, which does not check the store. -/
def serverCertVerifier (config : Etsi014Config) (roots : List TrustAnchor) :
    ExceptT String Option ServerCertVerifier :=
  if config.dangerAllowInsecureNoServerNameCertificates then do
    let v ← ExceptT.mk (some (NoServerNameVerification.fromRoots roots))
    pure (.noServerNameVerification v)
  else pure (.webPki ⟨roots⟩)

/-- `Etsi014Connection::configure_rustls`, in a process that has a default crypto provider
already or not. -/
def configureRustls (providerInstalled : Bool) (config : Etsi014Config) :
    ExceptT String Option (Option ClientConfig) := do
  if providerInstalled then (ExceptT.mk none : ExceptT String Option Unit)
  let roots ← loadRoots env config
  let clientAuth ← loadClientAuth env config
  let verifier ← serverCertVerifier config roots
  pure (some ⟨clientAuth, verifier⟩)

/-- `Etsi014Connection::from_config`: `use_preconfigured_tls` on what `configure_rustls`
returns, reqwest's own TLS on `None`. -/
def Etsi014Connection.fromConfig (providerInstalled : Bool) (config : Etsi014Config) :
    ExceptT String Option Etsi014Connection := do
  let rustlsConfig ← configureRustls env providerInstalled config
  ExceptT.mk (some (env.build rustlsConfig))
  pure ⟨config.url, config.remoteSaeId, rustlsConfig⟩

end

section

variable (env : TlsEnv)

theorem loadRoots_eq_ok_iff (config : Etsi014Config) (roots : List TrustAnchor) :
    (loadRoots env config).run = some (.ok roots) ↔ (config.tlsCacert = none ∧ roots = []) ∨
      ∃ path cert a, config.tlsCacert = some path ∧ env.certFromPemFile path = .ok cert ∧
        env.anchorFromTrustedCert cert = .ok a ∧ roots = [a] := by
  rcases config with ⟨_, _, _ | path, _, _⟩
  · simp [loadRoots, ExceptT.run_pure, eq_comm]
  · simp only [loadRoots, bind_pure_comp, bind_eq_ok, map_eq_ok, context_eq_ok]
    simp only [eq_comm, Option.some.injEq, reduceCtorEq, false_and, exists_and_left,
      exists_eq_left', false_or]

theorem loadRoots_eq_error_iff (config : Etsi014Config) (msg : String) :
    (loadRoots env config).run = some (.error msg) ↔ ∃ path, config.tlsCacert = some path ∧
      ((∃ e, env.certFromPemFile path = .error e) ∧
          msg = "Failed to read TLS CA certificate from file " ++ debugStr path ∨
        ∃ cert e, env.certFromPemFile path = .ok cert ∧
          env.anchorFromTrustedCert cert = .error e ∧
          msg = "Failed to add TLS CA certificate to RootCertStore") := by
  rcases config with ⟨_, _, _ | path, _, _⟩
  · simp [loadRoots, ExceptT.run_pure]
  · simp only [loadRoots, bind_pure_comp, bind_eq_error, map_eq_error, context_eq_error,
      context_eq_ok]
    simp only [Option.some.injEq, and_comm, exists_and_left, exists_eq_left']

theorem loadRoots_ne_none (config : Etsi014Config) : (loadRoots env config).run ≠ none := by
  rcases config with ⟨_, _, _ | path, _, _⟩
  · simp [loadRoots, ExceptT.run_pure]
  · simp only [loadRoots, bind_pure_comp, ne_eq, bind_eq_none, map_eq_none, context_eq_none,
      reduceCtorEq, false_or, not_exists, not_and]
    exact fun _ _ => by simp

theorem loadClientAuth_eq_ok_iff (config : Etsi014Config)
    (auth : Option (List Certificate × PrivateKey)) :
    (loadClientAuth env config).run = some (.ok auth) ↔ (config.clientAuth = none ∧ auth = none) ∨
      ∃ ca cert key, config.clientAuth = some ca ∧
        env.certFromPemFile ca.tlsCert = .ok cert ∧ env.keyFromPemFile ca.tlsKey = .ok key ∧
        env.withClientAuthCert [cert] key = .ok () ∧ auth = some ([cert], key) := by
  rcases config with ⟨_, _, _, _ | ⟨certPath, keyPath⟩, _⟩
  · simp [loadClientAuth, ExceptT.run_pure, eq_comm]
  · simp only [loadClientAuth, bind_pure_comp, bind_eq_ok, map_eq_ok, context_eq_ok, run_mk]
    simp only [eq_comm, Option.some.injEq, Unique.exists_iff, PUnit.default_eq_unit, reduceCtorEq,
      false_and, exists_and_left, exists_eq_left, false_or]

theorem loadClientAuth_eq_error_iff (config : Etsi014Config) (msg : String) :
    (loadClientAuth env config).run = some (.error msg) ↔
      ∃ ca, config.clientAuth = some ca ∧
        ((∃ e, env.certFromPemFile ca.tlsCert = .error e) ∧
            msg = "Failed to read TLS client certificate from file " ++ debugStr ca.tlsCert ∨
          ∃ cert, env.certFromPemFile ca.tlsCert = .ok cert ∧
            ((∃ e, env.keyFromPemFile ca.tlsKey = .error e) ∧
                msg = "Failed to read TLS client key from file " ++ debugStr ca.tlsKey ∨
              ∃ key, env.keyFromPemFile ca.tlsKey = .ok key ∧
                env.withClientAuthCert [cert] key = .error msg)) := by
  rcases config with ⟨_, _, _, _ | ⟨certPath, keyPath⟩, _⟩
  · simp [loadClientAuth, ExceptT.run_pure]
  · simp only [loadClientAuth, bind_pure_comp, bind_eq_error, map_eq_error, context_eq_error,
      context_eq_ok, run_mk]
    simp only [Option.some.injEq, and_comm, exists_eq_left']

theorem loadClientAuth_ne_none (config : Etsi014Config) : (loadClientAuth env config).run ≠ none := by
  rcases config with ⟨_, _, _, _ | ⟨certPath, keyPath⟩, _⟩
  · simp [loadClientAuth, ExceptT.run_pure]
  · simp only [loadClientAuth, bind_pure_comp, ne_eq, bind_eq_none, map_eq_none, context_eq_none,
      run_mk, reduceCtorEq, false_or, not_exists, not_and]
    exact fun _ _ _ _ => by simp

theorem serverCertVerifier_run (config : Etsi014Config) (roots : List TrustAnchor) :
    (serverCertVerifier config roots).run =
      some (if config.dangerAllowInsecureNoServerNameCertificates then
        if roots.isEmpty then .error "no root trust anchors were provided"
        else .ok (.noServerNameVerification ⟨⟨roots⟩⟩)
      else .ok (.webPki ⟨roots⟩)) := by
  rcases config with ⟨_, _, _, _, _ | _⟩ <;> cases roots <;> rfl

theorem serverCertVerifier_eq_ok_iff (config : Etsi014Config) (roots : List TrustAnchor)
    (v : ServerCertVerifier) :
    (serverCertVerifier config roots).run = some (.ok v) ↔
      (config.dangerAllowInsecureNoServerNameCertificates = true ∧ roots ≠ [] ∧
          v = .noServerNameVerification ⟨⟨roots⟩⟩) ∨
        (config.dangerAllowInsecureNoServerNameCertificates = false ∧ v = .webPki ⟨roots⟩) := by
  rw [serverCertVerifier_run]
  cases config.dangerAllowInsecureNoServerNameCertificates <;> cases roots <;> simp [eq_comm]

theorem serverCertVerifier_eq_error_iff (config : Etsi014Config) (roots : List TrustAnchor)
    (msg : String) :
    (serverCertVerifier config roots).run = some (.error msg) ↔
      config.dangerAllowInsecureNoServerNameCertificates = true ∧ roots = [] ∧
        msg = "no root trust anchors were provided" := by
  rw [serverCertVerifier_run]
  cases config.dangerAllowInsecureNoServerNameCertificates <;> cases roots <;> simp [eq_comm]

theorem serverCertVerifier_ne_none (config : Etsi014Config) (roots : List TrustAnchor) :
    (serverCertVerifier config roots).run ≠ none := by
  simp [serverCertVerifier_run]

theorem configureRustls_installed (config : Etsi014Config) :
    (configureRustls env true config).run = none := rfl

theorem configureRustls_eq_ok_iff (providerInstalled : Bool) (config : Etsi014Config)
    (r : Option ClientConfig) :
    (configureRustls env providerInstalled config).run = some (.ok r) ↔
      providerInstalled = false ∧ ∃ roots clientAuth verifier,
        (loadRoots env config).run = some (.ok roots) ∧
        (loadClientAuth env config).run = some (.ok clientAuth) ∧
        (serverCertVerifier config roots).run = some (.ok verifier) ∧
        r = some ⟨clientAuth, verifier⟩ := by
  cases providerInstalled
  · simp only [configureRustls, Bool.false_eq_true, ↓reduceIte, bind_pure_comp, pure_bind,
      bind_eq_ok, map_eq_ok]
    simp only [eq_comm, exists_and_left, true_and]
  · simp [configureRustls_installed]

theorem configureRustls_eq_error_iff (providerInstalled : Bool) (config : Etsi014Config)
    (msg : String) :
    (configureRustls env providerInstalled config).run = some (.error msg) ↔
      providerInstalled = false ∧ ((loadRoots env config).run = some (.error msg) ∨
        ∃ roots, (loadRoots env config).run = some (.ok roots) ∧
          ((loadClientAuth env config).run = some (.error msg) ∨
            ∃ clientAuth, (loadClientAuth env config).run = some (.ok clientAuth) ∧
              (serverCertVerifier config roots).run = some (.error msg))) := by
  cases providerInstalled
  · simp only [configureRustls, Bool.false_eq_true, ↓reduceIte, bind_pure_comp, pure_bind,
      bind_eq_error, map_eq_error]
    simp only [exists_and_right, true_and]
  · simp [configureRustls_installed]

theorem configureRustls_eq_none_iff (providerInstalled : Bool) (config : Etsi014Config) :
    (configureRustls env providerInstalled config).run = none ↔ providerInstalled = true := by
  cases providerInstalled
  · simp only [configureRustls, Bool.false_eq_true, ↓reduceIte, bind_pure_comp, pure_bind,
      bind_eq_none, map_eq_none, loadRoots_ne_none, loadClientAuth_ne_none,
      serverCertVerifier_ne_none]
    simp only [and_false, exists_const, or_self]
  · simp [configureRustls_installed]

theorem Etsi014Connection.fromConfig_eq_ok_iff (providerInstalled : Bool) (config : Etsi014Config)
    (conn : Etsi014Connection) :
    (Etsi014Connection.fromConfig env providerInstalled config).run = some (.ok conn) ↔
      ∃ r, (configureRustls env providerInstalled config).run = some (.ok r) ∧
        env.build r = .ok () ∧ conn = ⟨config.url, config.remoteSaeId, r⟩ := by
  simp only [Etsi014Connection.fromConfig, bind_pure_comp, bind_eq_ok, map_eq_ok, run_mk]
  simp [eq_comm, Unique.exists_iff]

theorem Etsi014Connection.fromConfig_eq_error_iff (providerInstalled : Bool)
    (config : Etsi014Config) (msg : String) :
    (Etsi014Connection.fromConfig env providerInstalled config).run = some (.error msg) ↔
      (configureRustls env providerInstalled config).run = some (.error msg) ∨
        ∃ r, (configureRustls env providerInstalled config).run = some (.ok r) ∧
          env.build r = .error msg := by
  simp only [Etsi014Connection.fromConfig, bind_pure_comp, bind_eq_error, map_eq_error, run_mk]
  simp

theorem Etsi014Connection.fromConfig_run_eq_none_iff (providerInstalled : Bool)
    (config : Etsi014Config) :
    (Etsi014Connection.fromConfig env providerInstalled config).run = none ↔
      (configureRustls env providerInstalled config).run = none := by
  simp only [Etsi014Connection.fromConfig, bind_pure_comp, bind_eq_none, map_eq_none, run_mk]
  simp

end

theorem WebPkiServerVerifier.verifyServerCert_eq_ok_iff (w : WebPki) (v : WebPkiServerVerifier)
    (c : ServerCert) : v.verifyServerCert w c = .ok () ↔
      w.verifyServerCertSignedByTrustAnchor v.roots c = .ok () ∧ w.verifyServerName c = .ok () := by
  unfold WebPkiServerVerifier.verifyServerCert
  cases w.verifyServerCertSignedByTrustAnchor v.roots c <;> simp [bind, Except.bind]

theorem WebPkiServerVerifier.verifyServerCert_eq_error_iff (w : WebPki)
    (v : WebPkiServerVerifier) (c : ServerCert) (e : RustlsError) :
    v.verifyServerCert w c = .error e ↔ w.verifyServerCertSignedByTrustAnchor v.roots c = .error e ∨
      w.verifyServerCertSignedByTrustAnchor v.roots c = .ok () ∧ w.verifyServerName c = .error e := by
  unfold WebPkiServerVerifier.verifyServerCert
  cases w.verifyServerCertSignedByTrustAnchor v.roots c <;> simp [bind, Except.bind]

/-- `NoServerNameVerification` accepts what WebPKI accepts and what it rejects for the
certificate's names only. -/
theorem NoServerNameVerification.verifyServerCert_eq_ok_iff (w : WebPki)
    (v : NoServerNameVerification) (c : ServerCert) :
    v.verifyServerCert w c = .ok () ↔ v.inner.verifyServerCert w c = .ok () ∨
      ∃ e, v.inner.verifyServerCert w c = .error e ∧ e.isNameMismatch = true := by
  unfold NoServerNameVerification.verifyServerCert
  generalize v.inner.verifyServerCert w c = r
  rcases r with ((_ | _ | _) | _) | _ <;> simp [RustlsError.isNameMismatch]

theorem NoServerNameVerification.verifyServerCert_eq_error_iff (w : WebPki)
    (v : NoServerNameVerification) (c : ServerCert) (e : RustlsError) :
    v.verifyServerCert w c = .error e ↔
      v.inner.verifyServerCert w c = .error e ∧ e.isNameMismatch = false := by
  unfold NoServerNameVerification.verifyServerCert
  generalize v.inner.verifyServerCert w c = r
  rcases r with ((_ | _ | _) | _) | _ <;> simp [RustlsError.isNameMismatch] <;> rintro rfl <;> rfl

/-- The verifier `configure_rustls` picks accepts a certificate exactly when it chains to the
roots and is valid for the server name or, under the danger flag, fails that second check for
its names. -/
theorem serverCertVerifier_verifyServerCert (w : WebPki) {config : Etsi014Config}
    {roots : List TrustAnchor} {v : ServerCertVerifier}
    (h : (serverCertVerifier config roots).run = some (.ok v)) (c : ServerCert) :
    v.verifyServerCert w c = .ok () ↔ w.verifyServerCertSignedByTrustAnchor roots c = .ok () ∧
      (w.verifyServerName c = .ok () ∨ config.dangerAllowInsecureNoServerNameCertificates = true ∧
        ∃ e, w.verifyServerName c = .error e ∧ e.isNameMismatch = true) := by
  rcases (serverCertVerifier_eq_ok_iff config roots v).mp h with ⟨hd, -, rfl⟩ | ⟨hd, rfl⟩
  · simp only [ServerCertVerifier.verifyServerCert, hd, true_and,
      NoServerNameVerification.verifyServerCert_eq_ok_iff,
      WebPkiServerVerifier.verifyServerCert_eq_ok_iff, WebPkiServerVerifier.verifyServerCert_eq_error_iff]
    constructor
    · rintro (⟨hs, hn⟩ | ⟨e, hs | ⟨hs, hn⟩, he⟩)
      · exact ⟨hs, .inl hn⟩
      · simp [w.signedByTrustAnchor_isNameMismatch _ _ _ hs] at he
      · exact ⟨hs, .inr ⟨e, hn, he⟩⟩
    · rintro ⟨hs, hn | ⟨e, hn, he⟩⟩
      exacts [.inl ⟨hs, hn⟩, .inr ⟨e, .inr ⟨hs, hn⟩, he⟩]
  · simp [ServerCertVerifier.verifyServerCert, WebPkiServerVerifier.verifyServerCert_eq_ok_iff, hd]

section

variable (env : TlsEnv)

theorem fromConfig_client (providerInstalled : Bool) (config : Etsi014Config)
    {conn : Etsi014Connection}
    (h : (Etsi014Connection.fromConfig env providerInstalled config).run = some (.ok conn)) :
    ∃ cc roots, conn.client = some cc ∧ (loadRoots env config).run = some (.ok roots) ∧
      (serverCertVerifier config roots).run = some (.ok cc.verifier) := by
  obtain ⟨r, hr, -, rfl⟩ := (Etsi014Connection.fromConfig_eq_ok_iff env _ _ _).mp h
  obtain ⟨-, roots, auth, v, hroots, -, hv, rfl⟩ := (configureRustls_eq_ok_iff env _ _ _).mp hr
  exact ⟨_, roots, rfl, hroots, hv⟩

/-- The connection `from_config` builds trusts the pinned CA certificate and nothing else: it
accepts a server certificate exactly when the chain leads to that root and the certificate is
valid for the server's name, where, under the danger flag, failing the name check for the
certificate's names is no rejection. -/
theorem fromConfig_verifyServerCert (w : WebPki) (providerInstalled : Bool)
    (config : Etsi014Config) (conn : Etsi014Connection)
    (h : (Etsi014Connection.fromConfig env providerInstalled config).run = some (.ok conn)) :
    ∃ cc roots, conn.client = some cc ∧
      (config.tlsCacert = none ∧ roots = [] ∨
        ∃ path cert a, config.tlsCacert = some path ∧ env.certFromPemFile path = .ok cert ∧
          env.anchorFromTrustedCert cert = .ok a ∧ roots = [a]) ∧
      ∀ c, cc.verifier.verifyServerCert w c = .ok () ↔
        w.verifyServerCertSignedByTrustAnchor roots c = .ok () ∧
          (w.verifyServerName c = .ok () ∨
            config.dangerAllowInsecureNoServerNameCertificates = true ∧
              ∃ e, w.verifyServerName c = .error e ∧ e.isNameMismatch = true) := by
  obtain ⟨cc, roots, hc, hroots, hv⟩ := fromConfig_client env providerInstalled config h
  exact ⟨cc, roots, hc, (loadRoots_eq_ok_iff env config roots).mp hroots,
    serverCertVerifier_verifyServerCert w hv⟩

/-- Files that all read, as empty certificates and keys, each certificate giving the anchor of
its own bytes, and a reqwest that builds. -/
def TlsEnv.readable : TlsEnv :=
  ⟨fun _ => .ok ⟨[]⟩, fun _ => .ok ⟨[]⟩, fun c => .ok ⟨c.der, c.der⟩, fun _ _ => .ok (),
    fun _ => .ok ()⟩

/-- A WebPKI that finds a chain exactly when the end entity is the subject of a root, and
holds every certificate invalid for every name; the two facts `WebPki` carries hold of it. -/
def WebPki.rootsOnly : WebPki where
  verifyServerCertSignedByTrustAnchor roots c :=
    if roots.any (·.subject == c.endEntity.der) then .ok ()
    else .error (.invalidCertificate (.other "UnknownIssuer"))
  verifyServerName _ := .error (.invalidCertificate .notValidForName)
  signedByTrustAnchor_isNameMismatch _ _ _ h := by
    dsimp only at h
    split at h <;> cases h
    rfl
  signedByTrustAnchor_nil _ := by simp

def pinnedConfig : Etsi014Config := ⟨"https://kme", "sae", some "ca.pem", none, true⟩

theorem fromConfig_verifyServerCert_pinned :
    ∃ conn, (Etsi014Connection.fromConfig TlsEnv.readable false pinnedConfig).run =
        some (.ok conn) ∧
      ∃ cc roots, conn.client = some cc ∧
        (pinnedConfig.tlsCacert = none ∧ roots = [] ∨
          ∃ path cert a, pinnedConfig.tlsCacert = some path ∧
            TlsEnv.readable.certFromPemFile path = .ok cert ∧
            TlsEnv.readable.anchorFromTrustedCert cert = .ok a ∧ roots = [a]) ∧
        ∀ c, cc.verifier.verifyServerCert WebPki.rootsOnly c = .ok () ↔
          WebPki.rootsOnly.verifyServerCertSignedByTrustAnchor roots c = .ok () ∧
            (WebPki.rootsOnly.verifyServerName c = .ok () ∨
              pinnedConfig.dangerAllowInsecureNoServerNameCertificates = true ∧
                ∃ e, WebPki.rootsOnly.verifyServerName c = .error e ∧ e.isNameMismatch = true) := by
  obtain ⟨conn, h⟩ : ∃ conn,
      (Etsi014Connection.fromConfig TlsEnv.readable false pinnedConfig).run = some (.ok conn) :=
    ⟨_, rfl⟩
  exact ⟨conn, h, fromConfig_verifyServerCert _ WebPki.rootsOnly false _ conn h⟩

/-- Without `tls_cacert` no connection ever completes a handshake: under the danger flag
`from_config` fails, and otherwise the client it builds rejects every server certificate. -/
theorem fromConfig_noCacert (w : WebPki) (providerInstalled : Bool) (config : Etsi014Config)
    (hca : config.tlsCacert = none) (conn : Etsi014Connection)
    (h : (Etsi014Connection.fromConfig env providerInstalled config).run = some (.ok conn)) :
    config.dangerAllowInsecureNoServerNameCertificates = false ∧
      ∀ cc ∈ conn.client, ∀ c, cc.verifier.verifyServerCert w c ≠ .ok () := by
  obtain ⟨cc, roots, hc, hroots, hv⟩ := fromConfig_client env providerInstalled config h
  obtain rfl : roots = [] := by
    rcases (loadRoots_eq_ok_iff env config roots).mp hroots with ⟨-, rfl⟩ | ⟨_, _, _, hp, -⟩
    exacts [rfl, absurd (hca.symm.trans hp) (by simp)]
  refine ⟨((serverCertVerifier_eq_ok_iff config [] _).mp hv).elim
    (fun ⟨_, hne, _⟩ => absurd rfl hne) (·.1), fun cc' hcc c hacc => ?_⟩
  obtain rfl : cc = cc' := Option.some.inj (hc.symm.trans (Option.mem_def.mp hcc))
  exact w.signedByTrustAnchor_nil c ((serverCertVerifier_verifyServerCert w hv c).mp hacc).1

/-- `from_config` panics exactly when the process has a default crypto provider already: a
second call panics, and no file or configuration makes the first one panic. -/
theorem fromConfig_panics_iff (providerInstalled : Bool) (config : Etsi014Config) :
    (Etsi014Connection.fromConfig env providerInstalled config).run = none ↔
      providerInstalled = true := by
  rw [Etsi014Connection.fromConfig_run_eq_none_iff, configureRustls_eq_none_iff]

/-- `from_config` fails with the message of the first step that fails: each names the file it
could not read or the check that refused, the CA certificate and its conversion to a root,
the client certificate and key and rustls's verdict on them, WebPKI's refusal of an empty
store under the danger flag, and reqwest's build. -/
theorem fromConfig_error_iff (providerInstalled : Bool) (config : Etsi014Config) (msg : String) :
    (Etsi014Connection.fromConfig env providerInstalled config).run = some (.error msg) ↔
      providerInstalled = false ∧
      ((∃ path, config.tlsCacert = some path ∧
          ((∃ e, env.certFromPemFile path = .error e) ∧
              msg = "Failed to read TLS CA certificate from file " ++ debugStr path ∨
            ∃ cert e, env.certFromPemFile path = .ok cert ∧
              env.anchorFromTrustedCert cert = .error e ∧
              msg = "Failed to add TLS CA certificate to RootCertStore")) ∨
        ∃ roots, (loadRoots env config).run = some (.ok roots) ∧
          ((∃ ca, config.clientAuth = some ca ∧
              ((∃ e, env.certFromPemFile ca.tlsCert = .error e) ∧
                  msg = "Failed to read TLS client certificate from file " ++ debugStr ca.tlsCert ∨
                ∃ cert, env.certFromPemFile ca.tlsCert = .ok cert ∧
                  ((∃ e, env.keyFromPemFile ca.tlsKey = .error e) ∧
                      msg = "Failed to read TLS client key from file " ++ debugStr ca.tlsKey ∨
                    ∃ key, env.keyFromPemFile ca.tlsKey = .ok key ∧
                      env.withClientAuthCert [cert] key = .error msg))) ∨
            ∃ clientAuth, (loadClientAuth env config).run = some (.ok clientAuth) ∧
              (config.dangerAllowInsecureNoServerNameCertificates = true ∧ roots = [] ∧
                  msg = "no root trust anchors were provided" ∨
                ∃ verifier, (serverCertVerifier config roots).run = some (.ok verifier) ∧
                  env.build (some ⟨clientAuth, verifier⟩) = .error msg))) := by
  rw [Etsi014Connection.fromConfig_eq_error_iff, configureRustls_eq_error_iff,
    ← loadRoots_eq_error_iff, ← loadClientAuth_eq_error_iff]
  simp only [← serverCertVerifier_eq_error_iff, configureRustls_eq_ok_iff]
  constructor
  · rintro (⟨hp, h | ⟨roots, hr, h | ⟨auth, ha, h⟩⟩⟩ | ⟨_, ⟨hp, roots, auth, v, hr, ha, hv, rfl⟩, hb⟩)
    exacts [⟨hp, .inl h⟩, ⟨hp, .inr ⟨roots, hr, .inl h⟩⟩, ⟨hp, .inr ⟨roots, hr, .inr ⟨auth, ha, .inl h⟩⟩⟩,
      ⟨hp, .inr ⟨roots, hr, .inr ⟨auth, ha, .inr ⟨v, hv, hb⟩⟩⟩⟩]
  · rintro ⟨hp, h | ⟨roots, hr, h | ⟨auth, ha, h | ⟨v, hv, hb⟩⟩⟩⟩
    exacts [.inl ⟨hp, .inl h⟩, .inl ⟨hp, .inr ⟨roots, hr, .inl h⟩⟩,
      .inl ⟨hp, .inr ⟨roots, hr, .inr ⟨auth, ha, h⟩⟩⟩,
      .inr ⟨_, ⟨hp, roots, auth, v, hr, ha, hv, rfl⟩, hb⟩]

end

end Daisyway.Tls
