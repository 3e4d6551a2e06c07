import Claimward.Library.Fields
import Claimward.Store

/-!
# The configuration

`internal/config`: the configuration is read from the variables of the
environment, and two of its values from files that variables name. A value that
does not parse counts as not set. What has to be set depends on the provider.

Reading stops at the first fault. Whether there is one does not depend on the
order of the checks, and the fault that is reported is one that is there.
-/

namespace Claimward.Startup

open GoText

/-- `time.Duration`: nanoseconds, in 64 bits. -/
abbrev Duration := Int64

/-- What is read from outside, `time.ParseDuration` among it, and the order in
which Go walks the map of the required variables. -/
structure Environment where
  getenv : String → String
  readFile : String → Except String String
  parseDuration : String → Option Duration
  walk : List (String × String) → List (String × String)
  perm : ∀ required, (walk required).Perm required

@[ext] structure Config where
  listenAddr : String
  tlsCert : String
  tlsKey : String
  grpcAddr : String
  grpcEndpoint : String
  adminToken : String
  authProvider : String
  oidcIssuer : String
  oidcClientID : String
  allowedDomains : List String
  gatewayClientID : String
  gatewaySecret : String
  peerListInterval : Duration
  ssf : Bool
  ssfInterval : Duration
  gitHubAPIURL : String
  gitHubAllowedOrgs : List String
  wgInterface : String
  wgEndpoint : String
  wgPrivateKey : String
  dryRun : Bool
  vpnCIDR : String
  pushRoutes : List String
  dns : List String
  keepalive : Int
  leaseTTL : Duration

/-- Why the configuration is refused. -/
inductive Fault where
  | privateKeyFile (err : String)
  | secretFile (err : String)
  | emptySecret (file : String)
  | interval
  | invalidProvider (provider : String)
  | missing (names : List String)
  deriving DecidableEq

/-- `strconv.ParseBool`. -/
def parseBool (s : String) : Option Bool :=
  if s ∈ ["1", "t", "T", "TRUE", "true", "True"] then some true
  else if s ∈ ["0", "f", "F", "FALSE", "false", "False"] then some false
  else none

/-- The number that decimal digits spell. -/
def digits (cs : List Char) : Option ℕ :=
  if cs ≠ [] ∧ cs.all (fun c => '0' ≤ c && c ≤ '9') then
    some (cs.foldl (fun n c => 10 * n + (c.toNat - '0'.toNat)) 0)
  else none

/-- The number that digits with an optional sign spell. -/
def signed : List Char → Option Int
  | '-' :: cs => (digits cs).map fun n => -(n : Int)
  | '+' :: cs => (digits cs).map fun n => (n : Int)
  | cs => (digits cs).map fun n => (n : Int)

/-- `strconv.Atoi`: a value of 64 bits. -/
def atoi (s : String) : Option Int :=
  (signed s.toList).filter fun n => -(2 ^ 63 : Int) ≤ n ∧ n < 2 ^ 63

def splitCSV (s : String) : List String :=
  if trimSpace s = "" then []
  else
    ((s.toList.splitOn ',').map fun part => String.ofList (trimChars isSpace part)).filter (· ≠ "")

section Load

variable (e : Environment)

def Environment.env (key default : String) : String :=
  if e.getenv key ≠ "" then e.getenv key else default

/-- The value that a variable spells, or the default. -/
def Environment.parsed {α : Type} (parse : String → Option α) (key : String) (default : α) : α :=
  if e.getenv key ≠ "" then (parse (e.getenv key)).getD default else default

def Environment.boolEnv (key : String) (default : Bool) : Bool := e.parsed parseBool key default

def Environment.intEnv (key : String) (default : Int) : Int := e.parsed atoi key default

def Environment.durEnv (key : String) (default : Duration) : Duration :=
  e.parsed e.parseDuration key default

/-- `time.Second`. -/
def second : Duration := 1000000000

/-- What `Load` starts from. -/
def Environment.config : Config where
  listenAddr := e.env "LISTEN_ADDR" ":8443"
  tlsCert := e.getenv "TLS_CERT"
  tlsKey := e.getenv "TLS_KEY"
  grpcAddr := e.env "GRPC_ADDR" ":8444"
  grpcEndpoint := e.getenv "GRPC_ENDPOINT"
  adminToken := e.getenv "ADMIN_TOKEN"
  authProvider := e.env "AUTH_PROVIDER" "github"
  oidcIssuer := e.getenv "OIDC_ISSUER"
  oidcClientID := e.getenv "OIDC_CLIENT_ID"
  allowedDomains := splitCSV (e.getenv "OIDC_ALLOWED_DOMAINS")
  gitHubAPIURL := e.getenv "GITHUB_API_URL"
  gitHubAllowedOrgs := splitCSV (e.getenv "GITHUB_ALLOWED_ORGS")
  wgInterface := e.env "WG_INTERFACE" "wg0"
  wgEndpoint := e.getenv "WG_ENDPOINT"
  wgPrivateKey := e.getenv "WG_PRIVATE_KEY"
  dryRun := e.boolEnv "WG_DRYRUN" false
  vpnCIDR := e.env "VPN_CIDR" "10.80.0.0/24"
  pushRoutes := splitCSV (e.getenv "PUSH_ROUTES")
  dns := splitCSV (e.getenv "DNS")
  keepalive := e.intEnv "KEEPALIVE" 25
  leaseTTL := e.durEnv "LEASE_TTL" (24 * 3600 * second)
  gatewayClientID := e.getenv "GOAUTHN_GATEWAY_CLIENT_ID"
  gatewaySecret := ""
  peerListInterval := e.durEnv "GOAUTHN_PEER_LIST_INTERVAL" (30 * second)
  ssf := e.boolEnv "GOAUTHN_SSF" false
  ssfInterval := e.durEnv "GOAUTHN_SSF_INTERVAL" (5 * second)

/-- The private key, from the variable or else from the file. -/
def Environment.privateKey : Except Fault String :=
  if e.getenv "WG_PRIVATE_KEY_FILE" ≠ "" ∧ e.getenv "WG_PRIVATE_KEY" = "" then
    match e.readFile (e.getenv "WG_PRIVATE_KEY_FILE") with
    | .error err => .error (.privateKeyFile err)
    | .ok b => .ok (trimSpace b)
  else .ok (e.getenv "WG_PRIVATE_KEY")

/-- The secret of the gateway's client, if a file is named for it. -/
def Environment.secret : Except Fault String :=
  if e.getenv "GOAUTHN_GATEWAY_SECRET_FILE" ≠ "" then
    match e.readFile (e.getenv "GOAUTHN_GATEWAY_SECRET_FILE") with
    | .error err => .error (.secretFile err)
    | .ok b =>
        if trimSpace b = "" then .error (.emptySecret (e.getenv "GOAUTHN_GATEWAY_SECRET_FILE"))
        else .ok (trimSpace b)
  else .ok ""

/-- The variables that have to be set whatever the provider is. -/
def Config.basic (c : Config) : List (String × String) :=
  [("WG_ENDPOINT", c.wgEndpoint), ("WG_PRIVATE_KEY", c.wgPrivateKey)]

def Config.oidc (c : Config) : List (String × String) :=
  [("OIDC_ISSUER", c.oidcIssuer), ("OIDC_CLIENT_ID", c.oidcClientID)]

def Config.withSecret (c : Config) (secret : String) : Config := { c with gatewaySecret := secret }

/-- What the provider requires, with the configuration completed for it. -/
def Environment.required (c : Config) : Except Fault (List (String × String) × Config) :=
  if c.authProvider = "github" then .ok (c.basic, c)
  else if c.authProvider = "oidc" then .ok (c.basic ++ c.oidc, c)
  else if c.authProvider = "go-authn" then do
    let secret ← e.secret
    if c.peerListInterval ≤ 0 then .error .interval
    else
      .ok (c.basic ++ c.oidc ++ [("GOAUTHN_GATEWAY_CLIENT_ID", c.gatewayClientID),
        ("GOAUTHN_GATEWAY_SECRET_FILE", e.getenv "GOAUTHN_GATEWAY_SECRET_FILE")],
        c.withSecret secret)
  else .error (.invalidProvider c.authProvider)

/-- The variables of a list that are not set. -/
def unset (required : List (String × String)) : List String :=
  (required.filter fun v => v.2 = "").map Prod.fst

/-- The configuration with its private key and, where no routes are set, the pool
as the only route. -/
def Environment.completed (key : String) : Config :=
  { e.config with
    wgPrivateKey := key
    pushRoutes :=
      if e.config.pushRoutes = [] then [e.config.vpnCIDR] else e.config.pushRoutes }

def load : Except Fault Config := do
  let key ← e.privateKey
  let (required, c) ← e.required (e.completed key)
  let missing := unset (e.walk required)
  if missing ≠ [] then .error (.missing missing) else .ok c

end Load

/-! What is required, and what may be wrong, told without the order of the checks. -/

def providers : List String := ["github", "oidc", "go-authn"]

/-- The variables that a provider requires. -/
def demanded (provider : String) : List String :=
  ["WG_ENDPOINT", "WG_PRIVATE_KEY"] ++
    (if provider = "github" then [] else ["OIDC_ISSUER", "OIDC_CLIENT_ID"]) ++
    if provider = "go-authn" then ["GOAUTHN_GATEWAY_CLIENT_ID", "GOAUTHN_GATEWAY_SECRET_FILE"]
    else []

namespace Environment

variable (e : Environment)

def provider : String := e.env "AUTH_PROVIDER" "github"

/-- What a variable is set to. The private key may also be in a file. -/
def value (key : String) : String :=
  if key = "WG_PRIVATE_KEY" then e.privateKey.toOption.getD "" else e.getenv key

/-- The fault is there. -/
def Holds : Fault → Prop
  | .privateKeyFile err =>
      e.getenv "WG_PRIVATE_KEY" = "" ∧ e.getenv "WG_PRIVATE_KEY_FILE" ≠ "" ∧
        e.readFile (e.getenv "WG_PRIVATE_KEY_FILE") = .error err
  | .secretFile err =>
      e.provider = "go-authn" ∧ e.getenv "GOAUTHN_GATEWAY_SECRET_FILE" ≠ "" ∧
        e.readFile (e.getenv "GOAUTHN_GATEWAY_SECRET_FILE") = .error err
  | .emptySecret file =>
      e.provider = "go-authn" ∧ file = e.getenv "GOAUTHN_GATEWAY_SECRET_FILE" ∧ file ≠ "" ∧
        ∃ b, e.readFile file = .ok b ∧ trimSpace b = ""
  | .interval =>
      e.provider = "go-authn" ∧ e.durEnv "GOAUTHN_PEER_LIST_INTERVAL" (30 * second) ≤ 0
  | .invalidProvider p => p = e.provider ∧ p ∉ providers
  | .missing names =>
      names ≠ [] ∧ names.Perm ((demanded e.provider).filter fun v => e.value v = "")

end Environment

/-- Every list has been cut into entries. There is always a route to push. -/
structure Config.Clean (c : Config) : Prop where
  pushRoutes : c.pushRoutes = [c.vpnCIDR] ∨
    c.pushRoutes ≠ [] ∧ ∀ r ∈ c.pushRoutes, Entry isSpace ',' r
  dns : ∀ d ∈ c.dns, Entry isSpace ',' d
  allowedDomains : ∀ d ∈ c.allowedDomains, Entry isSpace ',' d
  gitHubAllowedOrgs : ∀ o ∈ c.gitHubAllowedOrgs, Entry isSpace ',' o

/-- What the rest of the program relies on. -/
structure Config.Complete (c : Config) : Prop where
  endpoint : c.wgEndpoint ≠ ""
  privateKey : c.wgPrivateKey ≠ ""
  provider : c.authProvider ∈ providers
  issuer : c.authProvider ≠ "github" → c.oidcIssuer ≠ "" ∧ c.oidcClientID ≠ ""
  gateway : c.authProvider = "go-authn" →
    c.gatewayClientID ≠ "" ∧ c.gatewaySecret ≠ "" ∧ 0 < c.peerListInterval
  lists : c.Clean

theorem splitCSV_eq_fields (s : String) : splitCSV s = fields isSpace ',' s := by
  unfold splitCSV
  split
  · rename_i hblank
    refine (fields_blank (by decide) ?_).symm
    rw [trimSpace] at hblank
    simpa using congrArg String.toList hblank
  · rfl

theorem entry_of_mem_splitCSV {s d : String} (h : d ∈ splitCSV s) : Entry isSpace ',' d := by
  rw [splitCSV_eq_fields] at h
  exact entry_of_mem_fields h

section Verdict

variable {e : Environment} {f : Fault} {key secret : String} {c c' : Config}
  {required : List (String × String)}

theorem Config.Clean.withSecret (h : c.Clean) (secret : String) : (c.withSecret secret).Clean :=
  ⟨h.pushRoutes, h.dns, h.allowedDomains, h.gitHubAllowedOrgs⟩

theorem clean_completed (e : Environment) (key : String) : (e.completed key).Clean := by
  refine ⟨?_, ?_, ?_, ?_⟩
  · have hconfig : e.config.pushRoutes = splitCSV (e.getenv "PUSH_ROUTES") := by
      simp only [Environment.config]
    simp only [Environment.completed]
    split
    · exact Or.inl rfl
    · rename_i hset
      refine Or.inr ⟨hset, fun r hr => ?_⟩
      rw [hconfig] at hr
      exact entry_of_mem_splitCSV hr
  all_goals
    simp only [Environment.completed, Environment.config]
    exact fun _ => entry_of_mem_splitCSV

theorem privateKey_error (h : e.privateKey = .error f) : e.Holds f := by
  unfold Environment.privateKey at h
  split at h
  · rename_i hfile
    split at h
    · rename_i err hread
      obtain rfl := Except.error.inj h
      exact ⟨hfile.2, hfile.1, hread⟩
    · exact absurd h (by simp)
  · exact absurd h (by simp)

theorem privateKey_ok (h : e.privateKey = .ok key) (err : String) :
    ¬ e.Holds (.privateKeyFile err) := by
  rintro ⟨hunset, hfile, hread⟩
  simp only [Environment.privateKey, hread] at h
  rw [if_pos ⟨hfile, hunset⟩] at h
  exact absurd h (by simp)

theorem value_privateKey (h : e.privateKey = .ok key) : e.value "WG_PRIVATE_KEY" = key := by
  rw [Environment.value, if_pos rfl, h]
  rfl

theorem secret_error (hprovider : e.provider = "go-authn") (h : e.secret = .error f) :
    e.Holds f := by
  unfold Environment.secret at h
  split at h
  · rename_i hfile
    split at h
    · rename_i err hread
      obtain rfl := Except.error.inj h
      exact ⟨hprovider, hfile, hread⟩
    · rename_i b hread
      split at h
      · rename_i hblank
        obtain rfl := Except.error.inj h
        exact ⟨hprovider, rfl, hfile, b, hread, hblank⟩
      · exact absurd h (by simp)
  · exact absurd h (by simp)

theorem secret_ok (h : e.secret = .ok secret) :
    (e.getenv "GOAUTHN_GATEWAY_SECRET_FILE" ≠ "" → secret ≠ "") ∧
      Trimmed isSpace secret.toList ∧
      (∀ err, ¬ e.Holds (.secretFile err)) ∧ ∀ file, ¬ e.Holds (.emptySecret file) := by
  unfold Environment.secret at h
  split at h
  · rename_i hfile
    split at h
    · exact absurd h (by simp)
    · rename_i b hread
      split at h
      · exact absurd h (by simp)
      · rename_i hfull
        obtain rfl := Except.ok.inj h
        refine ⟨fun _ => hfull, trimmed_trimSpace b, ?_, ?_⟩
        · rintro err ⟨-, -, herr⟩
          exact absurd (hread.symm.trans herr) (by simp)
        · rintro file ⟨-, rfl, -, b', hread', hblank⟩
          obtain rfl := Except.ok.inj (hread.symm.trans hread')
          exact hfull hblank
  · rename_i hnone
    rw [not_not] at hnone
    obtain rfl := Except.ok.inj h
    refine ⟨fun h => absurd hnone h, trimmed_trimSpace "", ?_, ?_⟩
    · rintro err ⟨-, hfile, -⟩
      exact hfile hnone
    · rintro file ⟨-, rfl, hfile, -⟩
      exact hfile hnone

/-- The required variables and what they are set to. -/
def Environment.settings (e : Environment) : List (String × String) :=
  (demanded e.provider).map fun v => (v, e.value v)

theorem unset_settings (e : Environment) :
    unset e.settings = (demanded e.provider).filter fun v => e.value v = "" := by
  rw [unset, Environment.settings, List.filter_map, List.map_map]
  simp only [Function.comp_def, List.map_id']

theorem provider_completed : (e.completed key).authProvider = e.provider := rfl

theorem required_error (h : e.required (e.completed key) = .error f) : e.Holds f := by
  unfold Environment.required at h
  rw [provider_completed] at h
  split at h
  · exact absurd h (by simp)
  · rename_i hgithub
    split at h
    · exact absurd h (by simp)
    · rename_i hoidc
      split at h
      · rename_i hgoauthn
        cases hsecret : e.secret with
        | error f' =>
            rw [hsecret] at h
            obtain rfl := Except.error.inj h
            exact secret_error hgoauthn hsecret
        | ok secret =>
            rw [hsecret] at h
            simp only [Except.bind, bind] at h
            split at h
            · rename_i hinterval
              obtain rfl := Except.error.inj h
              exact ⟨hgoauthn, hinterval⟩
            · exact absurd h (by simp)
      · rename_i hgoauthn
        obtain rfl := Except.error.inj h
        refine ⟨rfl, ?_⟩
        simp only [providers, List.mem_cons, List.not_mem_nil, or_false, not_or]
        exact ⟨hgithub, hoidc, hgoauthn⟩

/-- What is known once the required variables have been collected. -/
structure Collected (e : Environment) (key : String) (required : List (String × String))
    (c : Config) : Prop where
  required : required = e.settings
  completed : ∃ secret, c = (e.completed key).withSecret secret ∧
    (e.provider = "go-authn" → e.getenv "GOAUTHN_GATEWAY_SECRET_FILE" ≠ "" → secret ≠ "")
  provider : e.provider ∈ providers
  interval : e.provider = "go-authn" → 0 < c.peerListInterval
  noSecret : e.provider ≠ "go-authn" → c.gatewaySecret = ""
  secret : Trimmed isSpace c.gatewaySecret.toList
  missing : ∀ f, e.Holds f → ∃ names, f = .missing names

/-- The lists of `Load` are the required variables with their values. -/
theorem settings_eq (hkey : e.privateKey = .ok key) :
    e.settings = (e.completed key).basic ++
      (if e.provider = "github" then [] else (e.completed key).oidc) ++
      if e.provider = "go-authn" then
        [("GOAUTHN_GATEWAY_CLIENT_ID", (e.completed key).gatewayClientID),
          ("GOAUTHN_GATEWAY_SECRET_FILE", e.getenv "GOAUTHN_GATEWAY_SECRET_FILE")]
      else [] := by
  have hvalue : ∀ v, v ≠ "WG_PRIVATE_KEY" → e.value v = e.getenv v := fun v hv => if_neg hv
  rw [Environment.settings, demanded, List.map_append, List.map_append]
  congr 1
  · congr 1
    · simp only [List.map_cons, List.map_nil, value_privateKey hkey,
        hvalue "WG_ENDPOINT" (by decide)]
      rfl
    · split
      · rfl
      · simp only [List.map_cons, List.map_nil, hvalue "OIDC_ISSUER" (by decide),
          hvalue "OIDC_CLIENT_ID" (by decide)]
        rfl
  · split
    · simp only [List.map_cons, List.map_nil, hvalue "GOAUTHN_GATEWAY_CLIENT_ID" (by decide),
        hvalue "GOAUTHN_GATEWAY_SECRET_FILE" (by decide)]
      rfl
    · rfl

/-- Once the checks of the provider are passed, only a variable may be missing. -/
theorem missing_of_holds (hkey : e.privateKey = .ok key) (hprovider : e.provider ∈ providers)
    (hsecret : ∀ err, ¬ e.Holds (.secretFile err)) (hempty : ∀ file, ¬ e.Holds (.emptySecret file))
    (hinterval : ¬ e.Holds .interval) (hf : e.Holds f) : ∃ names, f = .missing names := by
  cases f with
  | privateKeyFile err => exact absurd hf (privateKey_ok hkey err)
  | secretFile err => exact absurd hf (hsecret err)
  | emptySecret file => exact absurd hf (hempty file)
  | interval => exact absurd hf hinterval
  | invalidProvider p => exact absurd (hf.1 ▸ hprovider) hf.2
  | missing names => exact ⟨names, rfl⟩

theorem Config.withSecret_self (c : Config) : c.withSecret c.gatewaySecret = c := rfl

theorem collected_of_other (hkey : e.privateKey = .ok key) (hmem : e.provider ∈ providers)
    (hother : e.provider ≠ "go-authn") : Collected e key e.settings (e.completed key) where
  required := rfl
  completed := ⟨_, (e.completed key).withSecret_self.symm, fun h => absurd h hother⟩
  provider := hmem
  interval := fun h => absurd h hother
  noSecret := fun _ => rfl
  secret := trimmed_trimSpace ""
  missing := fun _ hf => missing_of_holds hkey hmem (fun _ hf => hother hf.1)
    (fun _ hf => hother hf.1) (fun hf => hother hf.1) hf

theorem collected_of_required (hkey : e.privateKey = .ok key)
    (h : e.required (e.completed key) = .ok (required, c)) : Collected e key required c := by
  have hsettings := settings_eq hkey
  unfold Environment.required at h
  rw [provider_completed] at h
  split at h
  · rename_i hgithub
    obtain ⟨rfl, rfl⟩ := Prod.mk.inj (Except.ok.inj h)
    simp only [hgithub, if_true, List.append_nil, String.reduceEq, if_false] at hsettings
    rw [← hsettings]
    exact collected_of_other hkey (by simp [providers, hgithub]) (by simp [hgithub])
  · split at h
    · rename_i hoidc
      obtain ⟨rfl, rfl⟩ := Prod.mk.inj (Except.ok.inj h)
      simp only [hoidc, List.append_nil, String.reduceEq, if_false] at hsettings
      rw [← hsettings]
      exact collected_of_other hkey (by simp [providers, hoidc]) (by simp [hoidc])
    · split at h
      · rename_i hgoauthn
        have hmem : e.provider ∈ providers := by simp [providers, hgoauthn]
        cases hsecret : e.secret with
        | error f =>
            rw [hsecret] at h
            exact absurd h (by simp [Except.bind, bind])
        | ok secret =>
            obtain ⟨hfull, htrimmed, hread, hempty⟩ := secret_ok hsecret
            rw [hsecret] at h
            simp only [Except.bind, bind] at h
            split at h
            · exact absurd h (by simp)
            · rename_i hinterval
              obtain ⟨rfl, rfl⟩ := Prod.mk.inj (Except.ok.inj h)
              simp only [hgoauthn, String.reduceEq, if_false, if_true] at hsettings
              exact ⟨hsettings.symm, ⟨secret, rfl, fun _ => hfull⟩, hmem,
                fun _ => Int64.not_le.mp hinterval, fun hother => absurd hgoauthn hother, htrimmed,
                fun f hf => missing_of_holds hkey hmem hread hempty (fun hf => hinterval hf.2) hf⟩
      · exact absurd h (by simp)

/-- The variables that are reported are those that are not set. -/
theorem perm_unset_walk (e : Environment) :
    (unset (e.walk e.settings)).Perm ((demanded e.provider).filter fun v => e.value v = "") := by
  rw [← unset_settings]
  exact ((e.perm e.settings).filter _).map _

/-- With every required variable set, nothing that the program relies on is left
out. -/
theorem Collected.complete (h : Collected e key required c) (hkey : e.privateKey = .ok key)
    (hset : ∀ v ∈ demanded e.provider, e.value v ≠ "") : c.Complete := by
  have hinterval := h.interval
  obtain ⟨secret, rfl, hsecret⟩ := h.completed
  have hvar : ∀ v ∈ demanded e.provider, v ≠ "WG_PRIVATE_KEY" → e.getenv v ≠ "" := by
    intro v hv hne
    have hvalue := hset v hv
    rwa [Environment.value, if_neg hne] at hvalue
  refine ⟨?_, ?_, h.provider, fun hp => ⟨?_, ?_⟩, fun hp => ⟨?_, ?_, hinterval hp⟩,
    (clean_completed e key).withSecret secret⟩
  · exact hvar "WG_ENDPOINT" (by simp [demanded]) (by decide)
  · have hvalue := hset "WG_PRIVATE_KEY" (by simp [demanded])
    rwa [value_privateKey hkey] at hvalue
  · have hother : e.provider ≠ "github" := hp
    exact hvar "OIDC_ISSUER" (by simp [demanded, hother]) (by decide)
  · have hother : e.provider ≠ "github" := hp
    exact hvar "OIDC_CLIENT_ID" (by simp [demanded, hother]) (by decide)
  · have hgoauthn : e.provider = "go-authn" := hp
    exact hvar "GOAUTHN_GATEWAY_CLIENT_ID" (by simp [demanded, hgoauthn]) (by decide)
  · have hgoauthn : e.provider = "go-authn" := hp
    exact hsecret hgoauthn
      (hvar "GOAUTHN_GATEWAY_SECRET_FILE" (by simp [demanded, hgoauthn]) (by decide))

/-- How `Load` ends. -/
theorem load_cases (e : Environment) :
    (∃ key required c, e.privateKey = .ok key ∧ Collected e key required c ∧
        unset (e.walk e.settings) = [] ∧ load e = .ok c) ∨
      ∃ f, load e = .error f ∧ e.Holds f := by
  cases hkey : e.privateKey with
  | error f =>
      refine Or.inr ⟨f, ?_, privateKey_error hkey⟩
      simp only [load, hkey, bind, Except.bind]
  | ok key =>
      cases hrequired : e.required (e.completed key) with
      | error f =>
          refine Or.inr ⟨f, ?_, required_error hrequired⟩
          simp only [load, hkey, hrequired, bind, Except.bind]
      | ok collected =>
          obtain ⟨required, c⟩ := collected
          have hcollected := collected_of_required hkey hrequired
          obtain rfl := hcollected.required
          by_cases hmissing : unset (e.walk e.settings) = []
          · refine Or.inl ⟨key, _, c, rfl, hcollected, hmissing, ?_⟩
            simp only [load, hkey, hrequired, bind, Except.bind, hmissing, ne_eq, not_true_eq_false,
              if_false]
          · refine Or.inr ⟨.missing _, ?_, hmissing, perm_unset_walk e⟩
            simp only [load, hkey, hrequired, bind, Except.bind, ne_eq, hmissing,
              not_false_eq_true, if_true]

theorem complete_of_load (h : load e = .ok c) : c.Complete := by
  rcases load_cases e with ⟨key, required, c', hkey, hcollected, hmissing, hload⟩ | ⟨f, hload, -⟩
  · obtain rfl := Except.ok.inj (h.symm.trans hload)
    apply hcollected.complete hkey
    intro v hv hempty
    have hperm := perm_unset_walk e
    rw [hmissing, List.nil_perm, List.filter_eq_nil_iff] at hperm
    exact hperm v hv (by simpa using hempty)
  · exact absurd (h.symm.trans hload) (by simp)

end Verdict

end Claimward.Startup
