import Claimward.Api.Calls
import Claimward.Library.Observer
import Claimward.Startup.Run

/-!
# The order of the start

What the start may do is told by the actions and replies before. Nothing is served
while peers of an earlier run are on the device or, where keys have to be
registered, before a list of them has been fetched. Only peers of the shape that
this server gives its own are taken off the device.
-/

namespace Claimward.Startup

open AtomicProgram AtomicProgram.Fallible Inet Wg Peers

abbrev Event := Happening interface

/-- The peers that the device was found to have. -/
def listed : Event → Option (List Wg.Peer)
  | ⟨.device .devicePeers, (ps, _)⟩ => ps
  | _ => none

/-- The list of registered keys that was fetched. -/
def fetched : Event → Option KeyList
  | ⟨.fetch, .ok l⟩ => some l
  | _ => none

/-- The peer has been taken off the device. -/
def Removed (k : Key) (past : List Event) : Prop :=
  ∃ err, ⟨.device (.removePeer k), (true, err)⟩ ∈ past

/-- Every peer that the device was found to have and that has the shape of this
server's has been taken off it. -/
def Swept (pool : IPNet) (past : List Event) : Prop :=
  ∃ ps, past.findSome? listed = some ps ∧
    ∀ p ∈ ps, ours p.allowedIPs pool = true → Removed p.publicKey past

/-- The configuration that is used, its pool and the allocator of it. -/
structure Configured (c : Codec) (e : Environment) (cfg : Config) (pool : IPNet)
    (alloc : Ipam.Allocator) : Prop where
  loaded : load e = .ok cfg
  complete : cfg.Complete
  pool : newAllocator c cfg = .ok (pool, alloc)

/-- No peers of an earlier run are left, unless the gateway only logs. -/
def Cleared (cfg : Config) (pool : IPNet) (past : List Event) : Prop :=
  cfg.dryRun = false → Swept pool past

/-- The registry has the list fetched last if keys have to be registered, and is
not used otherwise. -/
def Listed (cfg : Config) (registry : Registry) (past : List Event) : Prop :=
  if cfg.authProvider = "go-authn" then
    ∃ l, past.findSome? fetched = some l ∧ registry = Registry.new.install l
  else registry = .new

/-- The services are those of the configuration, and may be offered. -/
def Ready (c : Codec) (e : Environment) (past : List Event) (s : Services) : Prop :=
  ∃ cfg pool alloc registry priv, Configured c e cfg pool alloc ∧ Cleared cfg pool past ∧
    Listed cfg registry past ∧ s = services c cfg priv alloc registry

/-- The action is justified by what has happened before. -/
def Justified (c : Codec) (e : Environment) (past : List Event) : Action → Prop
  | .discover issuer audience =>
      ∃ cfg, load e = .ok cfg ∧ cfg.authProvider ≠ "github" ∧ issuer = cfg.oidcIssuer ∧
        audience = cfg.oidcClientID
  | .openDevice name => ∃ cfg, load e = .ok cfg ∧ cfg.dryRun = false ∧ name = cfg.wgInterface
  | .device a =>
      ∃ cfg pool alloc, Configured c e cfg pool alloc ∧ cfg.dryRun = false ∧
        (a = .devicePeers ∨ ∃ ps p, past.findSome? listed = some ps ∧ p ∈ ps ∧
          ours p.allowedIPs pool = true ∧ a = .removePeer p.publicKey)
  | .newSource issuer clientID clientSecret =>
      ∃ cfg pool alloc, Configured c e cfg pool alloc ∧ Cleared cfg pool past ∧
        cfg.authProvider = "go-authn" ∧ issuer = cfg.oidcIssuer ∧
        clientID = cfg.gatewayClientID ∧ clientSecret = cfg.gatewaySecret
  | .fetch =>
      ∃ cfg, load e = .ok cfg ∧ cfg.authProvider = "go-authn" ∧
        ⟨.newSource cfg.oidcIssuer cfg.gatewayClientID cfg.gatewaySecret, .ok ()⟩ ∈ past
  | .goPoller poller interval =>
      ∃ cfg, load e = .ok cfg ∧ cfg.authProvider = "go-authn" ∧ cfg.ssf = true ∧
        poller = .new cfg.oidcIssuer cfg.gatewayClientID cfg.gatewaySecret ∧
        interval = cfg.ssfInterval ∧ (past.findSome? fetched).isSome
  | .goRegistry interval =>
      ∃ cfg, load e = .ok cfg ∧ cfg.authProvider = "go-authn" ∧
        interval = cfg.peerListInterval ∧ 0 < interval ∧ (past.findSome? fetched).isSome
  | .listen addr =>
      (∃ cfg, load e = .ok cfg ∧ addr = cfg.grpcAddr) ∧ ∃ s, Ready c e past s
  | .loadCertificate cert key =>
      (∃ cfg, load e = .ok cfg ∧ cfg.tls = some (cert, key)) ∧ ∃ s, Ready c e past s
  | .goServeGRPC s secure =>
      Ready c e past s ∧
        (secure = true → ∃ cert key, ⟨.loadCertificate cert key, .ok ()⟩ ∈ past)
  | .goReaper => ∃ s secure, Ready c e past s ∧ ⟨.goServeGRPC s secure, ()⟩ ∈ past
  | .serveHTTP addr tls s =>
      (∃ cfg, load e = .ok cfg ∧ addr = cfg.listenAddr ∧ tls = cfg.tls) ∧
        Ready c e past s ∧ ⟨.goReaper, ()⟩ ∈ past ∧ ∃ secure, ⟨.goServeGRPC s secure, ()⟩ ∈ past

section Walk

variable {c : Codec} {e : Environment} {α : Type} {P : List Event → Prop}
  {Q : α → List Event → Prop} {past : List Event}

/-- A part of the start, by what has happened before it and after it. -/
abbrev Follows (c : Codec) (e : Environment) (P : List Event → Prop)
    (Q : α → List Event → Prop) (x : Launch α) : Prop :=
  Tracks (Justified c e) (fun _ => P) (fun v _ => Q v) (fun _ _ => True) x

theorem follows_attempt {a : Action} {reply : Reply a → Except String α}
    (h : ∀ past, P past → Justified c e past a)
    (hpost : ∀ r v past, reply r = .ok v → P past → Q v (⟨a, r⟩ :: past)) :
    Follows c e P Q (attempt a reply) := by
  refine (tracks_perform (Q := fun r _ past => ∃ older, past = ⟨a, r⟩ :: older ∧ P older)
    (fun _ => h) fun r _ past hp => ⟨past, rfl, hp⟩).bind fun r => tracks_check ?_ ?_
  · rintro v - past hok ⟨older, rfl, hp⟩
    exact hpost r v older hok hp
  · exact fun _ _ _ _ _ => trivial

theorem Removed.cons {k : Key} (h : Removed k past) (ev : Event) : Removed k (ev :: past) := by
  obtain ⟨err, hmem⟩ := h
  exact ⟨err, List.mem_cons_of_mem ev hmem⟩

/-- What is removed later does not undo the sweep. -/
theorem Swept.cons {pool : IPNet} (h : Swept pool past) {ev : Event} (hev : listed ev = none) :
    Swept pool (ev :: past) := by
  obtain ⟨ps, hps, hall⟩ := h
  refine ⟨ps, ?_, fun p hp hours => (hall p hp hours).cons ev⟩
  rw [List.findSome?_cons, hev]
  exact hps

variable {cfg : Config} {pool : IPNet} {alloc : Ipam.Allocator}

/-- The loop of the sweep: what it still has to look at, beside what is done. -/
theorem within_sweepLoop (hcfg : Configured c e cfg pool alloc) (hdry : cfg.dryRun = false)
    {all : List Wg.Peer} (rest : List Wg.Peer) (count : ℕ) (err : String)
    (hall : past.findSome? listed = some all) (hrest : ∀ p ∈ rest, p ∈ all)
    (hdone : ∀ p ∈ all, p ∉ rest → ours p.allowedIPs pool = true → Removed p.publicKey past) :
    (lift (Api.sweepLoop pool rest count) err).Within (Justified c e)
      (fun past r => r.1.2 = true → Swept pool past) past := by
  induction rest generalizing past count err with
  | nil => exact fun _ => ⟨all, hall, fun p hp => hdone p hp List.not_mem_nil⟩
  | cons p rest ih =>
      obtain ⟨hp, hrest⟩ := List.forall_mem_cons.mp hrest
      rw [Api.sweepLoop]
      split
      · rename_i hours
        refine ⟨⟨cfg, pool, alloc, hcfg, hdry, Or.inr ⟨all, p, hall, hp, hours, rfl⟩⟩, ?_⟩
        rintro ⟨ok, err'⟩
        cases ok with
        | false => exact fun h => absurd h (by simp)
        | true =>
            refine ih (count + 1) err' hall hrest ?_
            intro q hq hnot hq'
            by_cases hqp : q = p
            · exact ⟨err', hqp ▸ List.mem_cons_self⟩
            · exact (hdone q hq (by simp [hqp, hnot]) hq').cons _
      · rename_i hours
        apply ih count err hall hrest
        intro q hq hnot hq'
        refine hdone q hq ?_ hq'
        rintro hmem
        rcases List.mem_cons.mp hmem with rfl | hmem
        · exact hours hq'
        · exact hnot hmem

theorem follows_sweepDevice (hcfg : Configured c e cfg pool alloc) :
    Follows c e (fun _ => True) (fun _ => Cleared cfg pool) (sweepDevice cfg pool) := by
  unfold sweepDevice
  split
  · rename_i hdry
    exact tracks_pure fun _ _ _ hwet => absurd (hdry.symm.trans hwet) (by simp)
  · rename_i hdry
    intro s past _
    refine Program.Within.bind (Q := fun past r => r.1.2 = true → Swept pool past) ?_ ?_
    · refine ⟨⟨cfg, pool, alloc, hcfg, by simpa using hdry, Or.inl rfl⟩, ?_⟩
      rintro ⟨ps, err⟩
      cases ps with
      | none => exact fun h => absurd h (by simp)
      | some ps =>
          exact within_sweepLoop hcfg (by simpa using hdry) ps 0 _ rfl (fun _ hp => hp)
            fun p hp hnot => absurd hp hnot
    · intro past swept hswept
      cases hok : swept.1.2 with
      | true => exact fun _ => hswept hok
      | false => exact trivial

theorem Cleared.cons (h : Cleared cfg pool past) {ev : Event} (hev : listed ev = none) :
    Cleared cfg pool (ev :: past) :=
  fun hdry => (h hdry).cons hev

/-- The source has been made and the device is swept. -/
def Sourced (cfg : Config) (pool : IPNet) (past : List Event) : Prop :=
  Cleared cfg pool past ∧
    ⟨.newSource cfg.oidcIssuer cfg.gatewayClientID cfg.gatewaySecret, .ok ()⟩ ∈ past

/-- A list has been fetched and the device is swept. -/
def Fetched (cfg : Config) (pool : IPNet) (l : KeyList) (past : List Event) : Prop :=
  Cleared cfg pool past ∧ past.findSome? fetched = some l

theorem Fetched.cons {l : KeyList} (h : Fetched cfg pool l past) {ev : Event}
    (hev : listed ev = none) (hev' : fetched ev = none) : Fetched cfg pool l (ev :: past) := by
  refine ⟨h.1.cons hev, ?_⟩
  rw [List.findSome?_cons, hev']
  exact h.2

theorem follows_goPoller (hcfg : Configured c e cfg pool alloc)
    (hprovider : cfg.authProvider = "go-authn") (hssf : cfg.ssf = true) (l : KeyList) :
    Follows c e (Fetched cfg pool l) (fun _ => Fetched cfg pool l)
      (perform (I := interface) (.goPoller (.new cfg.oidcIssuer cfg.gatewayClientID
        cfg.gatewaySecret) cfg.ssfInterval)) := by
  apply tracks_perform
  · intro _ past h
    refine ⟨cfg, hcfg.loaded, hprovider, hssf, rfl, rfl, ?_⟩
    rw [h.2]
    rfl
  · intro r _ past h
    exact h.cons rfl rfl

theorem follows_goRegistry (hcfg : Configured c e cfg pool alloc)
    (hprovider : cfg.authProvider = "go-authn") (l : KeyList) :
    Follows c e (Fetched cfg pool l) (fun _ => Fetched cfg pool l)
      (perform (I := interface) (.goRegistry cfg.peerListInterval)) := by
  apply tracks_perform
  · intro _ past h
    refine ⟨cfg, hcfg.loaded, hprovider, rfl, (hcfg.complete.gateway hprovider).2.2, ?_⟩
    rw [h.2]
    rfl
  · intro r _ past h
    exact h.cons rfl rfl

theorem follows_newSource (hcfg : Configured c e cfg pool alloc)
    (hprovider : cfg.authProvider = "go-authn") :
    Follows c e (Cleared cfg pool) (fun _ => Sourced cfg pool)
      (attempt (.newSource cfg.oidcIssuer cfg.gatewayClientID cfg.gatewaySecret) id) := by
  apply follows_attempt
  · exact fun past h => ⟨cfg, pool, alloc, hcfg, h, hprovider, rfl, rfl, rfl⟩
  · rintro r ⟨⟩ past rfl h
    exact ⟨h.cons rfl, List.mem_cons_self⟩

theorem follows_fetch (hcfg : Configured c e cfg pool alloc)
    (hprovider : cfg.authProvider = "go-authn") :
    Follows c e (Sourced cfg pool) (fun l => Fetched cfg pool l) (attempt .fetch id) := by
  apply follows_attempt
  · exact fun past h => ⟨cfg, hcfg.loaded, hprovider, h.2⟩
  · rintro r l past rfl h
    exact ⟨h.1.cons rfl, rfl⟩

theorem follows_connectRegistry (hcfg : Configured c e cfg pool alloc)
    (hprovider : cfg.authProvider = "go-authn") :
    Follows c e (Cleared cfg pool)
      (fun registry past => Cleared cfg pool past ∧ Listed cfg registry past)
      (connectRegistry cfg) := by
  have hlisted : ∀ l past, Fetched cfg pool l past →
      Cleared cfg pool past ∧ Listed cfg (Registry.new.install l) past := by
    intro l past h
    rw [Listed, if_pos hprovider]
    exact ⟨h.1, l, h.2, rfl⟩
  refine (follows_newSource hcfg hprovider).bind fun _ =>
    (follows_fetch hcfg hprovider).bind fun l => ?_
  have hrun : Follows c e (Fetched cfg pool l)
      (fun registry past => Cleared cfg pool past ∧ Listed cfg registry past)
      (perform (I := interface) (.goRegistry cfg.peerListInterval) >>=
        fun _ => (pure (Registry.new.install l) : Launch Registry)) :=
    (follows_goRegistry hcfg hprovider l).bind fun _ => tracks_pure fun _ past => hlisted l past
  by_cases hssf : cfg.ssf = true
  · rw [if_pos hssf]
    exact (follows_goPoller hcfg hprovider hssf l).bind fun _ => hrun
  · rw [if_neg hssf]
    exact hrun

theorem follows_newRegistry (hcfg : Configured c e cfg pool alloc) :
    Follows c e (Cleared cfg pool)
      (fun registry past => Cleared cfg pool past ∧ Listed cfg registry past)
      (newRegistry cfg) := by
  unfold newRegistry
  split
  · rename_i hprovider
    exact follows_connectRegistry hcfg hprovider
  · rename_i hprovider
    refine tracks_pure fun _ past h => ⟨h, ?_⟩
    rw [Listed, if_neg hprovider]

/-- What is ready stays ready while nothing is listed or fetched. -/
theorem Ready.cons {s : Services} (h : Ready c e past s) {ev : Event} (hev : listed ev = none)
    (hev' : fetched ev = none) : Ready c e (ev :: past) s := by
  obtain ⟨cfg, pool, alloc, registry, priv, hcfg, hcleared, hlisted, rfl⟩ := h
  refine ⟨cfg, pool, alloc, registry, priv, hcfg, hcleared.cons hev, ?_, rfl⟩
  unfold Listed at hlisted ⊢
  rw [List.findSome?_cons, hev']
  exact hlisted

theorem follows_grpcOptions (hload : load e = .ok cfg) (s : Services) :
    Follows c e (fun past => Ready c e past s)
      (fun secure past => Ready c e past s ∧
        (secure = true → ∃ cert key, ⟨.loadCertificate cert key, .ok ()⟩ ∈ past))
      (grpcOptions cfg.tlsCert cfg.tlsKey) := by
  unfold grpcOptions
  split
  · exact tracks_pure fun _ past h => ⟨h, fun hsecure => absurd hsecure (by simp)⟩
  · rename_i hboth
    have htls : cfg.tls = some (cfg.tlsCert, cfg.tlsKey) := if_pos (not_or.mp hboth)
    have hcertificate : Follows c e (fun past => Ready c e past s)
        (fun _ past => Ready c e past s ∧
          ⟨.loadCertificate cfg.tlsCert cfg.tlsKey, .ok ()⟩ ∈ past)
        (attempt (.loadCertificate cfg.tlsCert cfg.tlsKey) certified) := by
      apply follows_attempt
      · exact fun past h => ⟨⟨cfg, hload, htls⟩, s, h⟩
      · rintro r ⟨⟩ past hr h
        cases r with
        | error err => exact absurd hr (by simp [certified])
        | ok u => exact ⟨h.cons rfl rfl, List.mem_cons_self⟩
    exact hcertificate.bind fun _ => tracks_pure fun _ past h => ⟨h.1, fun _ => ⟨_, _, h.2⟩⟩

theorem follows_serve (hload : load e = .ok cfg) (s : Services) :
    Follows c e (fun past => Ready c e past s) (fun _ _ => True) (serve cfg s) := by
  have hlisten : Follows c e (fun past => Ready c e past s) (fun _ past => Ready c e past s)
      (attempt (.listen cfg.grpcAddr) id) := by
    apply follows_attempt
    · exact fun past h => ⟨⟨cfg, hload, rfl⟩, s, h⟩
    · exact fun r v past _ h => h.cons rfl rfl
  refine hlisten.bind fun _ => (follows_grpcOptions hload s).bind fun secure => ?_
  have hstreams : Follows c e
      (fun past => Ready c e past s ∧
        (secure = true → ∃ cert key, ⟨.loadCertificate cert key, .ok ()⟩ ∈ past))
      (fun _ past => Ready c e past s ∧ ⟨.goServeGRPC s secure, ()⟩ ∈ past)
      (perform (I := interface) (.goServeGRPC s secure)) := by
    apply tracks_perform
    · exact fun _ past h => h
    · exact fun r _ past h => ⟨h.1.cons rfl rfl, List.mem_cons_self⟩
  have hreaper : Follows c e
      (fun past => Ready c e past s ∧ ⟨.goServeGRPC s secure, ()⟩ ∈ past)
      (fun _ past => Ready c e past s ∧ ⟨.goReaper, ()⟩ ∈ past ∧
        ⟨.goServeGRPC s secure, ()⟩ ∈ past)
      (perform (I := interface) .goReaper) := by
    apply tracks_perform
    · exact fun _ past h => ⟨s, secure, h⟩
    · exact fun r _ past h =>
        ⟨h.1.cons rfl rfl, List.mem_cons_self, List.mem_cons_of_mem _ h.2⟩
  refine hstreams.bind fun _ => hreaper.bind fun _ => ?_
  apply follows_attempt
  · exact fun past h => ⟨⟨cfg, hload, rfl, rfl⟩, h.1, h.2.1, secure, h.2.2⟩
  · exact fun _ _ _ _ _ => trivial

theorem follows_newVerifier (hload : load e = .ok cfg) :
    Follows c e (fun _ => True) (fun _ _ => True) (newVerifier c cfg) := by
  have hdiscover : ∀ who, cfg.authProvider ≠ "github" →
      Follows c e (fun _ => True) (fun _ _ => True)
        (attempt (.discover cfg.oidcIssuer cfg.oidcClientID)
          (discovered c who cfg.oidcIssuer)) := by
    intro who hprovider
    apply follows_attempt
    · exact fun past _ => ⟨cfg, hload, hprovider, rfl, rfl⟩
    · exact fun _ _ _ _ _ => trivial
  unfold newVerifier
  split
  · exact tracks_pure fun _ _ h => h
  · rename_i hnone
    have hprovider : cfg.authProvider ≠ "github" := fun h => hnone (Or.inr h)
    split
    · exact hdiscover "oidc" hprovider
    · split
      · exact hdiscover "go-authn" hprovider
      · exact tracks_throw fun _ _ h => h

theorem follows_newGateway (hload : load e = .ok cfg) :
    Follows c e (fun _ => True) (fun _ _ => True) (newGateway cfg) := by
  unfold newGateway
  split
  · exact tracks_pure fun _ _ h => h
  · rename_i hdry
    apply follows_attempt
    · exact fun past _ => ⟨cfg, hload, by simpa using hdry, rfl⟩
    · exact fun _ _ _ _ _ => trivial

/-- The value that a check went on with is known from there on. -/
theorem follows_check {β : Type} {x : Except String β} {f : β → Launch α}
    (h : ∀ v, x = .ok v → Follows c e P Q (f v)) : Follows c e P Q (check x >>= f) := by
  refine Tracks.bind (M := fun v _ past => x = .ok v ∧ P past) ?_ fun v s past hv => ?_
  · exact tracks_check (fun v _ past hx hp => ⟨hx, hp⟩) fun _ _ _ _ _ => trivial
  · exact h v hv.1 s past hv.2

theorem load_of_configuration (h : configuration c e = .ok cfg) : load e = .ok cfg := by
  unfold configuration at h
  split at h
  · rename_i cfg' hload
    rw [hload, Except.ok.inj h]
  · exact absurd h (by simp)

theorem follows_run (c : Codec) (e : Environment) :
    Follows c e (fun _ => True) (fun _ _ => True) (run c e) := by
  refine follows_check fun cfg hconfig => follows_check fun priv _ => ?_
  have hload := load_of_configuration hconfig
  refine (follows_newVerifier hload).bind fun _ => follows_check fun found hpool => ?_
  obtain ⟨pool, alloc⟩ := found
  have hcfg : Configured c e cfg pool alloc := ⟨hload, complete_of_load hload, hpool⟩
  refine (follows_newGateway hload).bind fun _ => (follows_sweepDevice hcfg).bind fun _ =>
    (follows_newRegistry hcfg).bind fun registry => ?_
  refine (follows_serve hload (services c cfg priv alloc registry)).of_imp fun _ past h => ?_
  exact ⟨cfg, pool, alloc, registry, priv, hcfg, h.1, h.2, rfl⟩

end Walk

/-- Whatever the outside answers, every action of the start is justified by what
has happened before. Only peers that the device was found to have, and that have
the shape of this server's, are taken off it. The provider is given the secret only
once the device is swept. When the streams and the API are served, every peer of
that shape is off the device, the registry has the list fetched last if keys have to
be registered, and everything else is as configured. -/
theorem start_justified (c : Codec) (e : Environment)
    (env : List Event → (a : Action) → Reply a) (newer older : List Event) (ev : Event)
    (h : ((run c e).start ()).happens env [] = newer ++ ev :: older) :
    Justified c e older ev.1 := by
  apply (follows_run c e () [] trivial).allowed env ?_ newer ev older h
  intro newer ev older hnil
  exact absurd hnil (by simp)

namespace Sample

/-- A gateway whose keys have to be registered. -/
def environment : Environment where
  getenv key := (List.lookup key
    [("WG_ENDPOINT", "vpn:51820"), ("WG_PRIVATE_KEY", Api.Sample.key₁),
      ("AUTH_PROVIDER", "go-authn"), ("OIDC_ISSUER", "https://idp"), ("OIDC_CLIENT_ID", "vpn"),
      ("GOAUTHN_GATEWAY_CLIENT_ID", "gw"), ("GOAUTHN_GATEWAY_SECRET_FILE", "/run/secret"),
      ("VPN_CIDR", "10.80.0.0/29")]).getD ""
  readFile _ := .ok "secret\n"
  parseDuration _ := none
  walk := id
  perm := .refl

/-- The values that the functions have at the texts and the key of the environment. -/
def codec : Codec where
  quote s := "\"" ++ s ++ "\""
  parseCIDR s :=
    if s = "10.80.0.0/29" then .ok Api.Sample.pool else .error ("invalid CIDR address: " ++ s)
  publicKey k :=
    if k = Api.Sample.bytes₁ then
      ⟨[0x2f, 0xe5, 0x7d, 0xa3, 0x47, 0xcd, 0x62, 0x43, 0x15, 0x28, 0xda, 0xac, 0x5f, 0xbb, 0x29,
        0x07, 0x30, 0xff, 0xf6, 0x84, 0xaf, 0xc4, 0xcf, 0xc2, 0xed, 0x90, 0x99, 0x5f, 0x58, 0xcb,
        0x3b, 0x74], rfl⟩
    else k

/-- A server of an earlier run, which has left a peer on the device. -/
def earlier : Api.Server :=
  { Api.Sample.start with device := Device.addPeer ∅ Api.Sample.bytes₁ [10, 80, 0, 2] }

attribute [local instance] GoText.asciiTables

/-- Every call succeeds. -/
def answer : (a : Action) → Reply a
  | .discover _ _ => .ok ()
  | .openDevice _ => .ok ()
  | .device a => ((Api.exec a (Api.Sample.oracle true true) earlier).1, "")
  | .newSource _ _ _ => .ok ()
  | .fetch => .ok (Api.Sample.list "alice")
  | .goPoller _ _ => ()
  | .goRegistry _ => ()
  | .listen _ => .ok ()
  | .loadCertificate _ _ => .ok ()
  | .goServeGRPC _ _ => ()
  | .goReaper => ()
  | .serveHTTP _ _ _ => .closed

/-- What happens, the latest first. -/
def started : List Event := ((run codec environment).start ()).happens (fun _ => answer) []

end Sample

/-- The services that an action offers over HTTP. -/
def Action.offers : Action → Option Services
  | .serveHTTP _ _ s => some s
  | _ => none

theorem Action.exists_offers {a : Action} (h : a.offers.isSome = true) :
    ∃ addr tls s, a = .serveHTTP addr tls s := by
  cases a with
  | serveHTTP addr tls s => exact ⟨addr, tls, s, rfl⟩
  | _ => exact absurd h (by simp [offers])

/-- The API is served when the peer left from the earlier run is off the device and
the list has been fetched. -/
theorem registered_gateway_started :
    ∃ addr tls s r older, Sample.started = ⟨.serveHTTP addr tls s, r⟩ :: older ∧
      Justified Sample.codec Sample.environment older (.serveHTTP addr tls s) := by
  have hhead : (Sample.started.head?.map fun ev => ev.1.offers.isSome) = some true := by
    decide +kernel
  obtain ⟨⟨a, r⟩, hev, hoffers⟩ := Option.map_eq_some_iff.mp hhead
  obtain ⟨older, hstarted⟩ := List.head?_eq_some_iff.mp hev
  have hjust := start_justified Sample.codec Sample.environment (fun _ => Sample.answer) [] older
    ⟨a, r⟩ hstarted
  obtain ⟨addr, tls, s, rfl⟩ := Action.exists_offers hoffers
  exact ⟨addr, tls, s, r, older, hstarted, hjust⟩

end Claimward.Startup
