import Claimward.Library.Fallible
import Mathlib.Data.List.Basic

/-!
# The requests of the poller

`internal/ssfpoll` request by request: `Once`, `setup`, `get`, `call` and
`bearer`, with everything that the provider may answer. Four of the five URLs
come from its answers. `get` and `call` check the URL they are given; `bearer`
uses the one it has kept, which it checked before keeping it.

## Implementation notes

What `net/url` and `encoding/json` do is a parameter, and so are the bodies that
the provider sends: the statements hold for all decoders. A decoder of a list
may fail and yet have put entries into it.
-/

namespace Claimward.Ssfpoll

open AtomicProgram Fallible

def deliveryPoll : String := "urn:ietf:rfc:8936"

def wellKnown : String := "/.well-known/ssf-configuration"

structure URL where
  scheme : String
  hostname : String

/-- The delivery of a stream. -/
structure Stream where
  method : String
  endpointURL : String

structure TokenAnswer where
  accessToken : String
  expiresIn : Int64

/-- The parts of `net/url` and `encoding/json` that are used. -/
structure Codec (Body : Type) where
  parse : String → Except String URL
  queryEscape : String → String
  configurationEndpoint : Body → Except String String
  tokenEndpoint : Body → Except String String
  rawMessage : Body → Except String Body
  streams : Body → List Stream × Bool
  stream : Body → Except String Stream
  token : Body → Except String TokenAnswer
  sets : Body → Except String (List String)

inductive Authorization where
  | anonymous
  | basic (user password : String)
  | bearer (token : String)
  deriving DecidableEq

/-- What is sent: the form of a token request, an acknowledgement with a request
for events, or a request for a stream. -/
inductive Content where
  | empty
  | clientCredentials
  | poll (ack : List String)
  | createStream
  deriving DecidableEq

structure Request where
  method : String
  url : String
  authorization : Authorization
  content : Content
  deriving DecidableEq

inductive Answer (Body : Type) where
  | failed (err : String)
  | answered (status : ℕ) (body : Body)

/-- What the poller does to the world. -/
inductive Action where
  | send (r : Request)
  | now
  | kick
  deriving DecidableEq

@[reducible] def Reply (Body : Type) : Action → Type
  | .send _ => Answer Body
  | .now => Int
  | .kick => Unit

abbrev interface (Body : Type) : Interface := ⟨Action, Reply Body⟩

inductive PollError where
  | badURL (err : String)
  | notHTTPS (url : String)
  | failed (err : String)
  | status (method url : String) (code : ℕ)
  | decode (err : String)
  | noConfigurationEndpoint
  | noPollEndpoint
  | tokenEndpoint (err : PollError)
  | noToken

structure Config where
  issuer : String
  clientID : String
  clientSecret : String

/-- `strings.TrimRight` for slashes. -/
def trimSlashes (s : String) : String :=
  String.ofList (s.toList.reverse.dropWhile (· = '/')).reverse

/-- The configuration as `New` keeps it. -/
def Config.new (issuer clientID clientSecret : String) : Config :=
  ⟨trimSlashes issuer, clientID, clientSecret⟩

structure Poller where
  tokenURL : String
  token : String
  tokenEnd : Int
  pollURL : String
  acks : List String

def Poller.new : Poller := ⟨"", "", 0, "", []⟩

section Poller

variable {Body : Type} (c : Codec Body) (cfg : Config)

/-- The function `protected` of the source: whether a secret may cross the link. -/
def protectedURL (raw : String) : Except PollError Unit :=
  match c.parse raw with
  | .error err => .error (.badURL err)
  | .ok u =>
      if u.scheme = "https" then .ok ()
      else if u.scheme = "http" ∧
          (u.hostname = "localhost" ∨ u.hostname = "127.0.0.1" ∨ u.hostname = "::1") then .ok ()
      else .error (.notHTTPS raw)

abbrev Poll (Body α : Type) := Fallible (interface Body) PollError Poller α

/-- Make a request and send it. -/
def exchange (r : Request) : Poll Body (ℕ × Body) := do
  let _ ← check ((c.parse r.url).mapError .badURL)
  match ← perform (I := interface Body) (.send r) with
  | .failed err => throw (.failed err)
  | .answered status body => return (status, body)

def clock : Poll Body Int := perform (I := interface Body) .now

/-- An unauthenticated GET of a document. -/
def get {α : Type} (u : String) (decode : Body → Except String α) : Poll Body α := do
  check (protectedURL c u)
  let (status, body) ← exchange c ⟨"GET", u, .anonymous, .empty⟩
  if status ≠ 200 then throw (.status "GET" u status)
  else check ((decode body).mapError .decode)

/-- The token endpoint: the one that is kept or else the one the provider
publishes, which is kept if it is protected. -/
def tokenEndpoint : Poll Body String := do
  let p ← MonadState.get
  if p.tokenURL ≠ "" then return p.tokenURL
  else
    let endpoint ← get c (cfg.issuer ++ "/.well-known/openid-configuration") c.tokenEndpoint
    check ((protectedURL c endpoint).mapError .tokenEndpoint)
    modify fun p => { p with tokenURL := endpoint }
    return endpoint

/-- The part of `bearer` that asks for a token. -/
def requestToken : Poll Body String := do
  let u ← tokenEndpoint c cfg
  let (_, body) ← exchange c ⟨"POST", u,
    .basic (c.queryEscape cfg.clientID) (c.queryEscape cfg.clientSecret), .clientCredentials⟩
  match c.token body with
  | .error _ => throw .noToken
  | .ok out =>
      if out.accessToken = "" then throw .noToken
      else
        let now ← clock
        modify fun p =>
          { p with
            token := out.accessToken
            tokenEnd := now + (out.expiresIn * 1000000000).toInt }
        return out.accessToken

/-- The receiver's own token; one that is kept is used until 30 seconds before
its end. -/
def bearer : Poll Body String := do
  let p ← MonadState.get
  if p.token = "" then requestToken c cfg
  else
    let now ← clock
    if p.tokenEnd - now > 30000000000 then return p.token
    else requestToken c cfg

/-- What `call` does with an answer. -/
def accept {α : Type} (method u : String) (decode : Body → Except String α) (status : ℕ)
    (body : Body) : Poll Body α :=
  if status / 100 = 2 then check ((decode body).mapError .decode)
  else if status = 401 then do
    modify fun p => { p with token := "" }
    throw (.status method u status)
  else throw (.status method u status)

/-- A request with the receiver's token. -/
def call {α : Type} (method u : String) (content : Content) (decode : Body → Except String α) :
    Poll Body α := do
  check (protectedURL c u)
  let tok ← bearer c cfg
  let (status, body) ← exchange c ⟨method, u, .bearer tok, content⟩
  accept method u decode status body

/-- The streams of an answer that is a list of streams or one stream. -/
def listed (raw : Body) : List Stream :=
  if (c.streams raw).2 then (c.streams raw).1
  else match c.stream raw with
    | .ok one => if one.method ≠ "" then [one] else (c.streams raw).1
    | .error _ => (c.streams raw).1

/-- The part of `setup` that creates a stream. -/
def createStream (endpoint : String) : Poll Body Unit := do
  let created ← call c cfg "POST" endpoint .createStream c.stream
  if created.endpointURL = "" then throw .noPollEndpoint
  else modify fun p => { p with pollURL := created.endpointURL }

def setup : Poll Body Unit := do
  let endpoint ← get c (cfg.issuer ++ wellKnown) c.configurationEndpoint
  if endpoint = "" then throw .noConfigurationEndpoint
  else
    let raw ← call c cfg "GET" endpoint .empty c.rawMessage
    match (listed c raw).find? fun s => s.method = deliveryPoll ∧ s.endpointURL ≠ "" with
    | some s => modify fun p => { p with pollURL := s.endpointURL }
    | none => createStream c cfg endpoint

/-- The part of `Once` from the poll on. -/
def poll : Poll Body Unit := do
  let p ← MonadState.get
  let ids ← call c cfg "POST" p.pollURL (.poll p.acks) c.sets
  modify fun p => { p with acks := ids }
  if ids ≠ [] then perform (I := interface Body) .kick
  else return ()

def once : Poll Body Unit := do
  let p ← MonadState.get
  if p.pollURL = "" then
    setup c cfg
    poll c cfg
  else poll c cfg

/-- Calls of `Once`, one after the other. `Run` forgets the stream when a call
fails; another caller need not. -/
def session : List Bool → Poll Body Unit
  | [] => return ()
  | forget :: rest => do
      (once c cfg).recover fun p => if forget then { p with pollURL := "" } else p
      session rest

end Poller

section Protected

variable {Body α : Type} {c : Codec Body} {cfg : Config}

/-- A request goes to a protected URL. -/
def Guarded (c : Codec Body) : Action → Prop
  | .send r => protectedURL c r.url = .ok ()
  | _ => True

/-- The token endpoint that is kept, if one is, is protected. -/
def Poller.Checked (c : Codec Body) (p : Poller) : Prop :=
  p.tokenURL = "" ∨ protectedURL c p.tokenURL = .ok ()

/-- From every checked state all requests are guarded and the state stays checked. -/
abbrev Safe (c : Codec Body) (Q : α → Prop) (x : Poll Body α) : Prop :=
  Meets (I := interface Body) (Poller.Checked c) (Guarded c) Q x

theorem safe_exchange {r : Request} (h : protectedURL c r.url = .ok ()) :
    Safe c (fun _ => True) (exchange c r) := by
  refine meets_check.bind fun _ _ => (meets_perform (I := interface Body) h).bind fun answer _ => ?_
  cases answer with
  | failed err => exact meets_throw
  | answered status body => exact meets_pure trivial

theorem safe_clock : Safe c (fun _ => True) (clock : Poll Body Int) :=
  meets_perform (I := interface Body) trivial

/-- A check whose result nothing depends on. -/
theorem safe_check (e : Except PollError α) : Safe c (fun _ => True) (check e) := by
  cases e with
  | ok a => exact meets_pure trivial
  | error e => exact meets_throw

theorem safe_get (u : String) (decode : Body → Except String α) :
    Safe c (fun _ => True) (get c u decode) := by
  refine meets_check.bind fun _ hu => (safe_exchange hu).bind fun answer _ => ?_
  obtain ⟨status, body⟩ := answer
  dsimp only
  split
  · exact meets_throw
  · exact safe_check _

/-- The endpoint that `bearer` sends the secret to is protected. -/
theorem safe_tokenEndpoint :
    Safe c (fun u => protectedURL c u = .ok ()) (tokenEndpoint c cfg) := by
  refine meets_get.bind fun p hp => ?_
  split
  · rename_i hkept
    exact meets_pure (hp.resolve_left hkept)
  · refine (safe_get _ _).bind fun endpoint _ => meets_check.bind fun _ hchecked => ?_
    have hprotected : protectedURL c endpoint = .ok () := by
      cases h : protectedURL c endpoint with
      | ok _ => rfl
      | error e => rw [h] at hchecked; simp [Except.mapError] at hchecked
    exact (meets_modify fun _ _ => .inr hprotected).bind fun _ _ => meets_pure hprotected

/-- What is done to the rest of the state leaves it checked. -/
theorem safe_modify {f : Poller → Poller} (h : ∀ p, (f p).tokenURL = p.tokenURL) :
    Safe c (fun _ => True) (modify f) := by
  refine meets_modify fun p hp => ?_
  rw [Poller.Checked, h p]
  exact hp

theorem safe_requestToken : Safe c (fun _ => True) (requestToken c cfg) := by
  refine safe_tokenEndpoint.bind fun u hu => (safe_exchange hu).bind fun answer _ => ?_
  obtain ⟨status, body⟩ := answer
  dsimp only
  split
  · exact meets_throw
  · split
    · exact meets_throw
    · exact safe_clock.bind fun now _ =>
        (safe_modify fun _ => rfl).bind fun _ _ => meets_pure trivial

theorem safe_bearer : Safe c (fun _ => True) (bearer c cfg) := by
  refine meets_get.bind fun p _ => ?_
  split
  · exact safe_requestToken
  · refine safe_clock.bind fun now _ => ?_
    split
    · exact meets_pure trivial
    · exact safe_requestToken

theorem safe_accept (method u : String) (decode : Body → Except String α) (status : ℕ)
    (body : Body) : Safe c (fun _ => True) (accept method u decode status body) := by
  unfold accept
  split
  · exact safe_check _
  · split
    · exact (safe_modify fun _ => rfl).bind fun _ _ => meets_throw
    · exact meets_throw

theorem safe_call (method u : String) (content : Content) (decode : Body → Except String α) :
    Safe c (fun _ => True) (call c cfg method u content decode) := by
  refine meets_check.bind fun _ hu => safe_bearer.bind fun tok _ =>
    (safe_exchange hu).bind fun answer _ => ?_
  exact safe_accept method u decode answer.1 answer.2

theorem safe_createStream (endpoint : String) :
    Safe c (fun _ => True) (createStream c cfg endpoint) := by
  refine (safe_call _ _ _ _).bind fun created _ => ?_
  split
  · exact meets_throw
  · exact safe_modify fun _ => rfl

theorem safe_setup : Safe c (fun _ => True) (setup c cfg) := by
  refine (safe_get _ _).bind fun endpoint _ => ?_
  split
  · exact meets_throw
  · refine (safe_call _ _ _ _).bind fun raw _ => ?_
    split
    · exact safe_modify fun _ => rfl
    · exact safe_createStream endpoint

theorem safe_poll : Safe c (fun _ => True) (poll c cfg) := by
  refine meets_get.bind fun p _ => (safe_call _ _ _ _).bind fun ids _ => ?_
  have hacks : Safe c (fun _ => True) (modify fun p => { p with acks := ids }) :=
    safe_modify fun _ => rfl
  refine hacks.bind fun _ _ => ?_
  split
  · exact meets_perform (I := interface Body) trivial
  · exact meets_pure trivial

theorem safe_once : Safe c (fun _ => True) (once c cfg) := by
  refine meets_get.bind fun p _ => ?_
  split
  · exact safe_setup.bind fun _ _ => safe_poll
  · exact safe_poll

theorem safe_session (forgets : List Bool) : Safe c (fun _ => True) (session c cfg forgets) := by
  induction forgets with
  | nil => exact meets_pure trivial
  | cons forget rest ih =>
      refine (safe_once.recover fun p hp => ?_).bind fun _ _ => ih
      split
      · exact hp
      · exact hp

/-- Whatever the provider answers, and in any sequence of calls of `Once`, every
request goes to a URL that is protected. -/
theorem requests_protected (c : Codec Body) (issuer clientID clientSecret : String)
    (forgets : List Bool)
    (env : List Action → (a : Action) → Reply Body a) (r : Request)
    (hsent : .send r ∈ ((session c (.new issuer clientID clientSecret) forgets).start
      Poller.new).asked env []) :
    protectedURL c r.url = .ok () :=
  (safe_session forgets Poller.new (.inl rfl)).asked env (by simp) (.send r) hsent

end Protected

namespace Sample

/-- The documents of a provider. -/
inductive Document where
  | metadata (configuration : String)
  | openid (token : String)
  | token
  | streams (url : String)
  | sets (ids : List String)
  | other
  deriving DecidableEq

/-- Absolute URLs with either scheme, on some host. -/
def codec : Codec Document where
  parse s :=
    if s.toList.take 8 = "https://".toList then .ok ⟨"https", "idp.example"⟩
    else .ok ⟨"http", "idp.example"⟩
  queryEscape := id
  configurationEndpoint | .metadata u => .ok u | _ => .error "not metadata"
  tokenEndpoint | .openid u => .ok u | _ => .error "not metadata"
  rawMessage := .ok
  streams | .streams u => ([⟨deliveryPoll, u⟩], true) | _ => ([], false)
  stream _ := .error "not a stream"
  token | .token => .ok ⟨"token", 300⟩ | _ => .error "not a token"
  sets | .sets ids => .ok ids | _ => .error "not a set"

/-- A provider that answers each URL with its document, the poll with an event. -/
def provider : List Action → (a : Action) → Reply Document a
  | _, .now => 0
  | _, .kick => ()
  | _, .send r => .answered 200
      (if r.url = "https://idp/.well-known/ssf-configuration" then .metadata "https://idp/streams"
      else if r.url = "https://idp/.well-known/openid-configuration" then
        .openid "https://idp/token"
      else if r.url = "https://idp/token" then .token
      else if r.url = "https://idp/streams" then .streams "https://idp/poll"
      else if r.url = "https://idp/poll" then .sets ["event"] else .other)

end Sample

theorem secret_sent_over_https :
    let r : Request := ⟨"POST", "https://idp/token", .basic "gw" "secret", .clientCredentials⟩
    .send r ∈ ((session Sample.codec (.new "https://idp/" "gw" "secret") [true]).start
      Poller.new).asked Sample.provider [] ∧ protectedURL Sample.codec r.url = .ok () := by
  intro r
  have hsent : .send r ∈ ((session Sample.codec (.new "https://idp/" "gw" "secret") [true]).start
      Poller.new).asked Sample.provider [] := by decide +kernel
  exact ⟨hsent, requests_protected Sample.codec "https://idp/" "gw" "secret" [true]
    Sample.provider r hsent⟩

end Claimward.Ssfpoll
