import Claimward.Startup.Load

/-!
# Which configurations can be set

The variables are a text format for the configuration. What `Load` accepts has
all that the program relies on; here the other direction: every configuration
that has it can be set, by variables that `Load` reads back.
-/

namespace Claimward.Startup

open GoText

/-- What `Load` can return. -/
structure Config.Loadable (c : Config) : Prop where
  complete : c.Complete
  listenAddr : c.listenAddr ≠ ""
  grpcAddr : c.grpcAddr ≠ ""
  wgInterface : c.wgInterface ≠ ""
  vpnCIDR : c.vpnCIDR ≠ ""
  keepalive : -(2 ^ 63 : Int) ≤ c.keepalive ∧ c.keepalive < 2 ^ 63
  noSecret : c.authProvider ≠ "go-authn" → c.gatewaySecret = ""
  secret : Trimmed isSpace c.gatewaySecret.toList

section Writing

variable (c : Config)

/-- The text of a list. -/
def csv (xs : List String) : String := ",".intercalate xs

/-- A duration, as a whole number of nanoseconds. -/
def nanoseconds (t : Duration) : String := toString t.toInt ++ "ns"

/-- The variables that set the configuration. The secret is in a file. -/
def Config.variables : List (String × String) :=
  [("LISTEN_ADDR", c.listenAddr), ("TLS_CERT", c.tlsCert), ("TLS_KEY", c.tlsKey),
    ("GRPC_ADDR", c.grpcAddr), ("GRPC_ENDPOINT", c.grpcEndpoint), ("ADMIN_TOKEN", c.adminToken),
    ("AUTH_PROVIDER", c.authProvider), ("OIDC_ISSUER", c.oidcIssuer),
    ("OIDC_CLIENT_ID", c.oidcClientID), ("OIDC_ALLOWED_DOMAINS", csv c.allowedDomains),
    ("GITHUB_API_URL", c.gitHubAPIURL), ("GITHUB_ALLOWED_ORGS", csv c.gitHubAllowedOrgs),
    ("WG_INTERFACE", c.wgInterface), ("WG_ENDPOINT", c.wgEndpoint),
    ("WG_PRIVATE_KEY", c.wgPrivateKey), ("WG_DRYRUN", toString c.dryRun), ("VPN_CIDR", c.vpnCIDR),
    ("PUSH_ROUTES", if c.pushRoutes = [c.vpnCIDR] then "" else csv c.pushRoutes),
    ("DNS", csv c.dns), ("KEEPALIVE", toString c.keepalive), ("LEASE_TTL", nanoseconds c.leaseTTL),
    ("GOAUTHN_GATEWAY_CLIENT_ID", c.gatewayClientID),
    ("GOAUTHN_GATEWAY_SECRET_FILE", "gateway.secret"),
    ("GOAUTHN_PEER_LIST_INTERVAL", nanoseconds c.peerListInterval), ("GOAUTHN_SSF", toString c.ssf),
    ("GOAUTHN_SSF_INTERVAL", nanoseconds c.ssfInterval)]

def Config.environment (parse : String → Option Duration) : Environment where
  getenv key := (c.variables.lookup key).getD ""
  readFile _ := .ok c.gatewaySecret
  parseDuration := parse
  walk := id
  perm := fun _ => .refl _

/-- Every duration is read back from its nanoseconds. -/
def ReadsNanoseconds (parse : String → Option Duration) : Prop :=
  ∀ t, parse (nanoseconds t) = some t

end Writing

section Reading

theorem parseBool_toString (b : Bool) : parseBool (toString b) = some b := by
  cases b
  · decide
  · decide

theorem digits_toDigits (n : ℕ) : digits (Nat.toDigits 10 n) = some n := by
  have hall : (Nat.toDigits 10 n).all (fun c => '0' ≤ c && c ≤ '9') = true := by
    rw [List.all_eq_true]
    intro c hc
    have hdigit := Nat.isDigit_of_mem_toDigits (by decide) (by decide) hc
    rw [Char.isDigit, Bool.and_eq_true, decide_eq_true_eq, decide_eq_true_eq] at hdigit
    rw [Bool.and_eq_true, decide_eq_true_eq, decide_eq_true_eq]
    exact hdigit
  rw [digits, if_pos ⟨Nat.toDigits_ne_nil, hall⟩]
  exact congrArg some (Nat.ofDigitChars_toDigits (by decide) (by decide))

/-- Decimal digits do not start with a sign. -/
theorem toDigits_ne_cons {n : ℕ} {c : Char} (hc : c.isDigit = false) (cs : List Char) :
    Nat.toDigits 10 n ≠ c :: cs := by
  intro h
  have hdigit : c.isDigit = true :=
    Nat.isDigit_of_mem_toDigits (by decide) (by decide) (h ▸ List.mem_cons_self)
  exact absurd (hc.symm.trans hdigit) (by simp)

theorem toDigits_append_ne_cons {n : ℕ} {c : Char} (hc : c.isDigit = false)
    (tail cs : List Char) : Nat.toDigits 10 n ++ tail ≠ c :: cs := by
  obtain ⟨d, ds, hcons⟩ := List.exists_cons_of_ne_nil (Nat.toDigits_ne_nil (n := n) (b := 10))
  rw [hcons, List.cons_append]
  intro h
  obtain ⟨rfl, -⟩ := List.cons.inj h
  exact toDigits_ne_cons hc ds hcons

theorem toList_toString_ofNat (m : ℕ) :
    (toString (Int.ofNat m)).toList = Nat.toDigits 10 m := by
  simp [Int.repr, Nat.repr_eq_ofList_toDigits]

theorem toList_toString_negSucc (m : ℕ) :
    (toString (Int.negSucc m)).toList = '-' :: Nat.toDigits 10 (m + 1) := by
  simp [Int.repr, Nat.repr_eq_ofList_toDigits]

theorem signed_toString (n : Int) : signed (toString n).toList = some n := by
  cases n with
  | ofNat m =>
      rw [toList_toString_ofNat]
      unfold signed
      split
      · rename_i cs h
        exact absurd h (toDigits_ne_cons (by decide) cs)
      · rename_i cs h
        exact absurd h (toDigits_ne_cons (by decide) cs)
      · rw [digits_toDigits]
        rfl
  | negSucc m =>
      rw [toList_toString_negSucc, signed, digits_toDigits]
      rfl

theorem toString_ne_empty (n : Int) : toString n ≠ "" := by
  intro hempty
  have hread := signed_toString n
  have hnone : signed "".toList = none := by decide
  rw [hempty, hnone] at hread
  exact absurd hread (by simp)

theorem nanoseconds_ne_empty (t : Duration) : nanoseconds t ≠ "" := by
  simp [nanoseconds]

theorem atoi_toString {n : Int} (hlo : -(2 ^ 63 : Int) ≤ n) (hhi : n < 2 ^ 63) :
    atoi (toString n) = some n := by
  rw [atoi, signed_toString, Option.filter_some, if_pos (decide_eq_true ⟨hlo, hhi⟩)]

theorem splitCSV_csv {xs : List String} (h : ∀ e ∈ xs, Entry isSpace ',' e) :
    splitCSV (csv xs) = xs := by
  rw [splitCSV_eq_fields]
  exact fields_intercalate h

variable {c : Config} {parse : String → Option Duration}

/-- In a list of pairs with different keys, every pair is found. -/
theorem lookup_of_mem {vars : List (String × String)} (hnodup : (vars.map Prod.fst).Nodup)
    {key value : String} (h : (key, value) ∈ vars) : vars.lookup key = some value := by
  induction vars with
  | nil => exact absurd h List.not_mem_nil
  | cons var vars ih =>
      obtain ⟨hnew, hnodup⟩ := List.nodup_cons.mp hnodup
      rcases List.mem_cons.mp h with rfl | h
      · exact List.lookup_cons_self
      · have hne : key ≠ var.1 := by
          rintro rfl
          exact hnew (List.mem_map.mpr ⟨_, h, rfl⟩)
        rw [List.lookup_cons, beq_eq_false_iff_ne.mpr hne]
        exact ih hnodup h

theorem getenv_of_mem {key value : String} (h : (key, value) ∈ c.variables) :
    (c.environment parse).getenv key = value := by
  have hnodup : (c.variables.map Prod.fst).Nodup := by
    simp only [Config.variables, List.map_cons, List.map_nil]
    decide
  exact congrArg (Option.getD · "") (lookup_of_mem hnodup h)

/-- A variable that is set is not replaced by its default. -/
theorem env_of_mem {key value default : String} (h : (key, value) ∈ c.variables)
    (hset : value ≠ "") : (c.environment parse).env key default = value := by
  rw [Environment.env, getenv_of_mem h, if_pos hset]

theorem parsed_of_mem {α : Type} {read : String → Option α} {key value : String} {default x : α}
    (h : (key, value) ∈ c.variables) (hset : value ≠ "") (hread : read value = some x) :
    (c.environment parse).parsed read key default = x := by
  rw [Environment.parsed, getenv_of_mem h, if_pos hset, hread, Option.getD_some]

theorem list_of_mem {key : String} {xs : List String} (h : (key, csv xs) ∈ c.variables)
    (hxs : ∀ x ∈ xs, Entry isSpace ',' x) :
    splitCSV ((c.environment parse).getenv key) = xs := by
  rw [getenv_of_mem h, splitCSV_csv hxs]

theorem durEnv_of_mem (hparse : ReadsNanoseconds parse) {key : String} {t default : Duration}
    (h : (key, nanoseconds t) ∈ c.variables) : (c.environment parse).durEnv key default = t :=
  parsed_of_mem h (nanoseconds_ne_empty t) (hparse t)

theorem boolEnv_of_mem {key : String} {b default : Bool} (h : (key, toString b) ∈ c.variables) :
    (c.environment parse).boolEnv key default = b := by
  refine parsed_of_mem h ?_ (parseBool_toString b)
  cases b with
  | false => decide
  | true => decide

theorem Config.Complete.provider_ne_empty (h : c.Complete) : c.authProvider ≠ "" := by
  intro hempty
  have hprovider := h.provider
  simp [hempty, providers] at hprovider

/-- What the variables say, before the routes are completed and the secret is read. -/
theorem config_environment (h : c.Loadable) (hparse : ReadsNanoseconds parse) :
    (c.environment parse).config =
      { c with
        gatewaySecret := ""
        pushRoutes := if c.pushRoutes = [c.vpnCIDR] then [] else c.pushRoutes } := by
  apply Config.ext
  all_goals simp only [Environment.config]
  case listenAddr => exact env_of_mem (by simp [Config.variables]) h.listenAddr
  case grpcAddr => exact env_of_mem (by simp [Config.variables]) h.grpcAddr
  case wgInterface => exact env_of_mem (by simp [Config.variables]) h.wgInterface
  case vpnCIDR => exact env_of_mem (by simp [Config.variables]) h.vpnCIDR
  case authProvider =>
    exact env_of_mem (by simp [Config.variables]) h.complete.provider_ne_empty
  case allowedDomains =>
    exact list_of_mem (by simp [Config.variables]) h.complete.lists.allowedDomains
  case gitHubAllowedOrgs =>
    exact list_of_mem (by simp [Config.variables]) h.complete.lists.gitHubAllowedOrgs
  case dns => exact list_of_mem (by simp [Config.variables]) h.complete.lists.dns
  case pushRoutes =>
    have hvar : (c.environment parse).getenv "PUSH_ROUTES" =
        if c.pushRoutes = [c.vpnCIDR] then "" else csv c.pushRoutes :=
      getenv_of_mem (by simp [Config.variables])
    rw [hvar]
    by_cases hdefault : c.pushRoutes = [c.vpnCIDR]
    · rw [if_pos hdefault, if_pos hdefault]
      decide
    · rw [if_neg hdefault, if_neg hdefault]
      exact splitCSV_csv (h.complete.lists.pushRoutes.resolve_left hdefault).2
  case keepalive =>
    exact parsed_of_mem (by simp [Config.variables]) (toString_ne_empty c.keepalive)
      (atoi_toString h.keepalive.1 h.keepalive.2)
  case dryRun => exact boolEnv_of_mem (by simp [Config.variables])
  case ssf => exact boolEnv_of_mem (by simp [Config.variables])
  case leaseTTL => exact durEnv_of_mem hparse (by simp [Config.variables])
  case peerListInterval => exact durEnv_of_mem hparse (by simp [Config.variables])
  case ssfInterval => exact durEnv_of_mem hparse (by simp [Config.variables])
  all_goals exact getenv_of_mem (by simp [Config.variables])

/-- The configuration that is completed lacks the secret only. -/
theorem completed_environment (h : c.Loadable) (hparse : ReadsNanoseconds parse) :
    (c.environment parse).completed c.wgPrivateKey = c.withSecret "" := by
  have hroutes : (if (if c.pushRoutes = [c.vpnCIDR] then [] else c.pushRoutes) = []
      then [c.vpnCIDR] else if c.pushRoutes = [c.vpnCIDR] then [] else c.pushRoutes) =
        c.pushRoutes := by
    by_cases hdefault : c.pushRoutes = [c.vpnCIDR]
    · rw [if_pos hdefault, if_pos rfl, hdefault]
    · have hset := (h.complete.lists.pushRoutes.resolve_left hdefault).1
      rw [if_neg hdefault, if_neg hset]
  rw [Environment.completed, config_environment h hparse]
  simp only [hroutes]
  rfl

theorem privateKey_environment (h : c.Loadable) :
    (c.environment parse).privateKey = .ok c.wgPrivateKey := by
  have hkey : (c.environment parse).getenv "WG_PRIVATE_KEY" = c.wgPrivateKey :=
    getenv_of_mem (by simp [Config.variables])
  rw [Environment.privateKey, hkey, if_neg fun hfile => h.complete.privateKey hfile.2]

theorem secret_environment (h : c.Loadable) (hprovider : c.authProvider = "go-authn") :
    (c.environment parse).secret = .ok c.gatewaySecret := by
  have hfile : (c.environment parse).getenv "GOAUTHN_GATEWAY_SECRET_FILE" =
      "gateway.secret" := getenv_of_mem (by simp [Config.variables])
  have htrim : trimSpace c.gatewaySecret = c.gatewaySecret := trimSpace_eq_self_iff.mpr h.secret
  rw [Environment.secret, hfile, if_pos (by decide)]
  change (if trimSpace c.gatewaySecret = "" then _ else Except.ok (trimSpace c.gatewaySecret)) = _
  rw [htrim, if_neg (h.complete.gateway hprovider).2.1]

theorem unset_eq_nil {required : List (String × String)} (h : ∀ v ∈ required, v.2 ≠ "") :
    unset required = [] := by
  rw [unset, List.map_eq_nil_iff, List.filter_eq_nil_iff]
  intro v hv
  simpa using h v hv

theorem set_pair {key key' value value' : String} (h : value ≠ "") (h' : value' ≠ "") :
    ∀ v ∈ [(key, value), (key', value')], v.2 ≠ "" := by
  simp [h, h']

/-- What is required is set. -/
theorem required_environment (parse : String → Option Duration) (h : c.Loadable) :
    ∃ required, (c.environment parse).required (c.withSecret "") = .ok (required, c) ∧
      unset required = [] := by
  have hbasic : ∀ v ∈ (c.withSecret "").basic, v.2 ≠ "" :=
    set_pair h.complete.endpoint h.complete.privateKey
  have hoidc : c.authProvider ≠ "github" → ∀ v ∈ (c.withSecret "").oidc, v.2 ≠ "" := fun hother =>
    set_pair (h.complete.issuer hother).1 (h.complete.issuer hother).2
  have hself : c.authProvider ≠ "go-authn" → c.withSecret "" = c := fun hother =>
    h.noSecret hother ▸ c.withSecret_self
  have hprovider := h.complete.provider
  simp only [providers, List.mem_cons, List.not_mem_nil, or_false] at hprovider
  rcases hprovider with hgithub | hissuer | hgoauthn
  · have hp : (c.withSecret "").authProvider = "github" := hgithub
    refine ⟨(c.withSecret "").basic, ?_, unset_eq_nil hbasic⟩
    rw [Environment.required, if_pos hp, hself (by simp [hgithub])]
  · have hp : (c.withSecret "").authProvider = "oidc" := hissuer
    refine ⟨(c.withSecret "").basic ++ (c.withSecret "").oidc, ?_, unset_eq_nil ?_⟩
    · rw [Environment.required, if_neg (by simp [hp]), if_pos hp, hself (by simp [hissuer])]
    · exact List.forall_mem_append.mpr ⟨hbasic, hoidc (by simp [hissuer])⟩
  · have hp : (c.withSecret "").authProvider = "go-authn" := hgoauthn
    obtain ⟨hclient, -, hinterval⟩ := h.complete.gateway hgoauthn
    have hfile : (c.environment parse).getenv "GOAUTHN_GATEWAY_SECRET_FILE" =
        "gateway.secret" := getenv_of_mem (by simp [Config.variables])
    refine ⟨(c.withSecret "").basic ++ (c.withSecret "").oidc ++
      [("GOAUTHN_GATEWAY_CLIENT_ID", c.gatewayClientID),
        ("GOAUTHN_GATEWAY_SECRET_FILE", "gateway.secret")], ?_, unset_eq_nil ?_⟩
    · rw [Environment.required, if_neg (by simp [hp]), if_neg (by simp [hp]), if_pos hp,
        secret_environment h hgoauthn]
      have hlater : ¬ (c.withSecret "").peerListInterval ≤ 0 := Int64.not_le.mpr hinterval
      simp only [bind, Except.bind]
      rw [if_neg hlater, hfile]
      rfl
    · exact List.forall_mem_append.mpr ⟨List.forall_mem_append.mpr
        ⟨hbasic, hoidc (by simp [hgoauthn])⟩, set_pair hclient (by decide)⟩

theorem load_environment (h : c.Loadable) (hparse : ReadsNanoseconds parse) :
    load (c.environment parse) = .ok c := by
  obtain ⟨required, hrequired, hunset⟩ := required_environment parse h
  have hwalk : unset ((c.environment parse).walk required) = [] := hunset
  simp only [load, privateKey_environment h, completed_environment h hparse, hrequired, hwalk,
    bind, Except.bind, ne_eq, not_true_eq_false, if_false]

end Reading

section Image

variable {e : Environment} {c : Config}

theorem env_ne_empty {key default : String} (h : default ≠ "") : e.env key default ≠ "" := by
  unfold Environment.env
  split
  · assumption
  · exact h

theorem intEnv_range {key : String} {default : Int}
    (h : -(2 ^ 63 : Int) ≤ default ∧ default < 2 ^ 63) :
    -(2 ^ 63 : Int) ≤ e.intEnv key default ∧ e.intEnv key default < 2 ^ 63 := by
  unfold Environment.intEnv Environment.parsed
  split
  · cases hread : atoi (e.getenv key) with
    | none => exact h
    | some n =>
        obtain ⟨-, hrange⟩ := Option.filter_eq_some_iff.mp hread
        exact of_decide_eq_true hrange
  · exact h

theorem loadable_of_load (h : load e = .ok c) : c.Loadable := by
  rcases load_cases e with ⟨key, required, c', hkey, hcollected, -, hload⟩ | ⟨f, hload, -⟩
  · obtain rfl := Except.ok.inj (h.symm.trans hload)
    obtain ⟨secret, rfl, -⟩ := hcollected.completed
    exact ⟨complete_of_load h, env_ne_empty (by decide), env_ne_empty (by decide),
      env_ne_empty (by decide), env_ne_empty (by decide), intEnv_range (by decide),
      hcollected.noSecret, hcollected.secret⟩
  · exact absurd (h.symm.trans hload) (by simp)

/-- **The image of `Load`.** With durations that are read back from their
nanoseconds, the configurations that `Load` returns for some environment are exactly
the loadable ones. -/
theorem loaded_iff_loadable (c : Config) {parse : String → Option Duration}
    (hparse : ReadsNanoseconds parse) :
    (∃ e : Environment, e.parseDuration = parse ∧ load e = .ok c) ↔ c.Loadable := by
  constructor
  · rintro ⟨e, -, h⟩
    exact loadable_of_load h
  · intro h
    exact ⟨c.environment parse, rfl, load_environment h hparse⟩

end Image

/-! `time.ParseDuration` on texts without a fraction. -/

namespace Sample

/-- The units, in nanoseconds. -/
def units : List (String × ℕ) :=
  [("ns", 1), ("us", 1000), ("µs", 1000), ("μs", 1000), ("ms", 1000000), ("s", 1000000000),
    ("m", 60000000000), ("h", 3600000000000)]

def isUnitChar (c : Char) : Bool := c ≠ '.' && !c.isDigit

/-- The number and the unit at the front of a text, and what follows them. -/
def leadingUnit (cs : List Char) : Option (ℕ × List Char) := do
  let v ← digits (cs.takeWhile Char.isDigit)
  let rest := cs.dropWhile Char.isDigit
  let unit ← units.lookup (String.ofList (rest.takeWhile isUnitChar))
  return (v * unit, rest.dropWhile isUnitChar)

/-- What the numbers and units of a text add up to, if that is at most `2 ^ 63`. -/
def sumUnits : ℕ → List Char → ℕ → Option ℕ
  | _, [], d => some d
  | 0, _ :: _, _ => none
  | fuel + 1, cs, d => do
      let (v, rest) ← leadingUnit cs
      if d + v ≤ 2 ^ 63 then sumUnits fuel rest (d + v) else none

def magnitude (cs : List Char) : Option ℕ :=
  if cs = ['0'] then some 0 else if cs = [] then none else sumUnits cs.length cs 0

/-- Only a negative duration may have the size `2 ^ 63`. -/
def signedDuration : List Char → Option Duration
  | '-' :: cs => (magnitude cs).map fun d : ℕ => Int64.ofInt (-d)
  | '+' :: cs => ((magnitude cs).filter (· < 2 ^ 63)).map fun d : ℕ => Int64.ofInt d
  | cs => ((magnitude cs).filter (· < 2 ^ 63)).map fun d : ℕ => Int64.ofInt d

def parseDuration (s : String) : Option Duration := signedDuration s.toList

theorem leadingUnit_nanoseconds (n : ℕ) :
    leadingUnit (Nat.toDigits 10 n ++ ['n', 's']) = some (n, []) := by
  have hdigits : ∀ c ∈ Nat.toDigits 10 n, c.isDigit = true :=
    fun c hc => Nat.isDigit_of_mem_toDigits (by decide) (by decide) hc
  have hunit : units.lookup (String.ofList (['n', 's'].takeWhile isUnitChar)) = some 1 := by decide
  rw [leadingUnit, List.takeWhile_append_of_pos hdigits, List.dropWhile_append_of_pos hdigits,
    show ['n', 's'].takeWhile Char.isDigit = [] by decide,
    show ['n', 's'].dropWhile Char.isDigit = ['n', 's'] by decide, List.append_nil,
    digits_toDigits]
  simp only [Option.bind_eq_bind, Option.bind_some, hunit, Option.pure_def, mul_one]
  rfl

theorem magnitude_nanoseconds {n : ℕ} (h : n ≤ 2 ^ 63) :
    magnitude (Nat.toDigits 10 n ++ ['n', 's']) = some n := by
  have hread := leadingUnit_nanoseconds n
  obtain ⟨c, cs, hcons⟩ := List.exists_cons_of_ne_nil (Nat.toDigits_ne_nil (n := n) (b := 10))
  rw [hcons, List.cons_append] at hread ⊢
  rw [magnitude, if_neg (by simp), if_neg (by simp), List.length_cons, sumUnits]
  · rw [hread]
    simp only [Option.bind_eq_bind, Option.bind_some, zero_add, if_pos h, sumUnits]
  · simp

theorem signedDuration_nanoseconds {n : Int} (hlo : -(2 ^ 63 : Int) ≤ n) (hhi : n < 2 ^ 63) :
    signedDuration ((toString n).toList ++ ['n', 's']) = some (Int64.ofInt n) := by
  cases n with
  | ofNat m =>
      have hsize : m < 2 ^ 63 := Int.ofNat_lt.mp hhi
      rw [toList_toString_ofNat]
      unfold signedDuration
      split
      · rename_i cs h
        exact absurd h (toDigits_append_ne_cons (by decide) _ cs)
      · rename_i cs h
        exact absurd h (toDigits_append_ne_cons (by decide) _ cs)
      · rw [magnitude_nanoseconds hsize.le, Option.filter_some, if_pos (decide_eq_true hsize)]
        rfl
  | negSucc m =>
      have hsize : m + 1 ≤ 2 ^ 63 := by omega
      rw [toList_toString_negSucc, List.cons_append, signedDuration, magnitude_nanoseconds hsize]
      rfl

theorem readsNanoseconds_parseDuration : ReadsNanoseconds parseDuration := by
  intro t
  have htext : (nanoseconds t).toList = (toString t.toInt).toList ++ ['n', 's'] := by
    simp [nanoseconds]
  rw [parseDuration, htext, signedDuration_nanoseconds (Int64.le_toInt t) (Int64.toInt_lt t),
    Int64.ofInt_toInt]

example : parseDuration "1h30m" = some (5400 * second) ∧
    parseDuration "-9223372036854775808ns" = some Int64.minValue ∧
    parseDuration "9223372036854775808ns" = none := by decide +kernel

end Sample

/-- A gateway with GitHub accounts and a name server of its own. -/
private def withNameServer : Config where
  listenAddr := ":8443"
  tlsCert := ""
  tlsKey := ""
  grpcAddr := ":8444"
  grpcEndpoint := ""
  adminToken := ""
  authProvider := "github"
  oidcIssuer := ""
  oidcClientID := ""
  allowedDomains := []
  gatewayClientID := ""
  gatewaySecret := ""
  peerListInterval := 30 * second
  ssf := false
  ssfInterval := 5 * second
  gitHubAPIURL := ""
  gitHubAllowedOrgs := []
  wgInterface := "wg0"
  wgEndpoint := "vpn:51820"
  wgPrivateKey := "key"
  dryRun := true
  vpnCIDR := "10.80.0.0/24"
  pushRoutes := ["10.80.0.0/24"]
  dns := ["10.80.0.53"]
  keepalive := -1
  leaseTTL := second

theorem withNameServer_loaded :
    ∃ e : Environment, e.parseDuration = Sample.parseDuration ∧ load e = .ok withNameServer := by
  have hdns : Entry isSpace ',' "10.80.0.53" :=
    ⟨by decide, by decide, trimSpace_eq_self_iff.mp (by decide)⟩
  have hclean : withNameServer.Clean :=
    ⟨Or.inl rfl, List.forall_mem_singleton.mpr hdns, List.forall_mem_nil _, List.forall_mem_nil _⟩
  have hcomplete : withNameServer.Complete :=
    ⟨by decide, by decide, by decide, fun h => absurd rfl h, fun h => absurd h (by decide), hclean⟩
  exact (loaded_iff_loadable withNameServer Sample.readsNanoseconds_parseDuration).mpr
    ⟨hcomplete, by decide, by decide, by decide, by decide, by decide, fun _ => rfl,
      trimmed_trimSpace ""⟩

end Claimward.Startup
