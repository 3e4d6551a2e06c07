import Claimward.Http.Surface
import Claimward.Library.Erasure

/-!
# Requests without credentials

Who may change anything is told by the request alone: a client with a token that
verifies, at one of three paths, or an administrator with the configured token, at
those that change tenants. Every other request only reads, and a stream without a
token that verifies does nothing at all. Among any other calls, streams and tasks
such requests cannot be told from requests that were never made. What a request for
a change of a tenant does is decided by its header, and there are tokens that no
header can carry.
-/

namespace Claimward.Http

open AtomicProgram GoText ServeMux Runs
open Api (Claims)
open Grpc (Gateway StreamOracle)

section Credentials

variable [CaseTables] {Body : Type} (s : Surface Body) (r : Request Body)

/-- The token of the request verifies. -/
def Verified (authorization : List FieldValue) : Prop :=
  bearerToken authorization ≠ "" ∧ ∃ claims, s.verify (bearerToken authorization) = .ok claims

/-- The paths at which clients change something. -/
def clientPaths : List (List String) :=
  [["api", "v1", "enroll"], ["api", "v1", "heartbeat"], ["api", "v1", "deregister"]]

/-- The method and the path are those of a change of a tenant. -/
def ChangesTenant (method : String) (path : List String) : Prop :=
  method = "POST" ∧ path = ["admin", "api", "tenants"] ∨
    (method = "PUT" ∨ method = "DELETE") ∧ ∃ id, path = ["admin", "api", "tenants", id]

/-- The request may change something. -/
inductive MayWrite : Prop
  | client (hmethod : r.method = "POST") (hpath : r.path ∈ clientPaths)
      (hverified : Verified s r.authorization)
  | admin (htarget : ChangesTenant r.method r.path) (htoken : s.adminToken ≠ "")
      (hpresented : bearerToken r.authorization = s.adminToken)

end Credentials

section Routes

/-- A handler that changes something is reached at its own path only. -/
theorem client_of_route {method : String} {path values : List String} {e : Endpoint}
    (h : apiMux.route method path = .handler e values)
    (he : e = .enroll ∨ e = .heartbeat ∨ e = .deregister) :
    method = "POST" ∧ path ∈ clientPaths := by
  obtain ⟨p, hmem, hallows, hcapture⟩ := Mux.exists_of_route h
  have hp : ∃ target ∈ clientPaths, p = exactly "POST" target := by
    rcases he with rfl | rfl | rfl
    · exact ⟨["api", "v1", "enroll"], by simp [clientPaths], by simpa [apiMux] using hmem⟩
    · exact ⟨["api", "v1", "heartbeat"], by simp [clientPaths], by simpa [apiMux] using hmem⟩
    · exact ⟨["api", "v1", "deregister"], by simp [clientPaths], by simpa [apiMux] using hmem⟩
  obtain ⟨target, htarget, rfl⟩ := hp
  refine ⟨eq_of_allows rfl (by decide) hallows, ?_⟩
  rw [capture_literals hcapture]
  exact htarget

theorem path_of_oneTenant {method : String} {path values : List String}
    (h : capture (oneTenant method).subtree (oneTenant method).segments path = some values) :
    ∃ id, path = ["admin", "api", "tenants", id] := by
  have hsegments : (oneTenant method).segments =
      ["admin", "api", "tenants"].map Segment.literal ++ [.wildcard] := rfl
  rw [hsegments] at h
  exact capture_literals_wildcard h

/-- A tenant is changed only where there is a token, and at its own path. -/
theorem admin_of_route {token method : String} {path values : List String} {root : Root}
    (h : (rootMux token).route method path = .handler root values)
    (hroot : root = .createTenant ∨ root = .updateTenant ∨ root = .deleteTenant) :
    token ≠ "" ∧ ChangesTenant method path := by
  obtain ⟨p, hmem, hallows, hcapture⟩ := Mux.exists_of_route h
  by_cases htoken : token = ""
  · rcases hroot with rfl | rfl | rfl
    all_goals exact absurd hmem (by simp [rootMux, adminMux, htoken])
  · refine ⟨htoken, ?_⟩
    rcases hroot with rfl | rfl | rfl
    · obtain rfl : p = exactly "POST" ["admin", "api", "tenants"] := by
        simpa [rootMux, adminMux, htoken] using hmem
      exact Or.inl ⟨eq_of_allows rfl (by decide) hallows, capture_literals hcapture⟩
    · obtain rfl : p = oneTenant "PUT" := by simpa [rootMux, adminMux, htoken] using hmem
      exact Or.inr ⟨Or.inl (eq_of_allows rfl (by decide) hallows), path_of_oneTenant hcapture⟩
    · obtain rfl : p = oneTenant "DELETE" := by simpa [rootMux, adminMux, htoken] using hmem
      exact Or.inr ⟨Or.inr (eq_of_allows rfl (by decide) hallows), path_of_oneTenant hcapture⟩

end Routes

section Readers

variable [CaseTables] {Body : Type} {s : Surface Body} {r : Request Body}

/-- A program that only reads. -/
abbrev Reader (p : Program interface Answer) : Prop := p.Only (Reads exec)

theorem reads_tenantList : Reads exec .tenantList := fun _ _ => rfl

theorem reads_watcherCount : Reads exec .watcherCount := fun _ _ => rfl

theorem reads_tenantGet (id : String) : Reads exec (.gateway (.tenantGet id)) := fun _ _ => rfl

theorem reads_storeList : Reads exec (.gateway (.api .storeList)) := fun _ _ => rfl

theorem reads_tenantsFor (m : Member) : Reads exec (.gateway (.api (.tenantsFor m))) :=
  fun _ _ => rfl

theorem reader_handleTenants (claims : Claims) : Reader (handleTenants claims) := by
  refine ⟨reads_tenantsFor _, fun ts => ?_⟩
  cases ts with
  | none => trivial
  | some ts => trivial

theorem reader_overview : Reader overview :=
  ⟨reads_tenantList, fun _ => ⟨reads_storeList, fun _ => ⟨reads_watcherCount, fun _ => trivial⟩⟩⟩

theorem reader_metrics : Reader metrics :=
  ⟨reads_tenantList, fun _ => ⟨reads_storeList, fun _ => ⟨reads_watcherCount, fun _ => trivial⟩⟩⟩

theorem reader_listTenants : Reader listTenants := ⟨reads_tenantList, fun _ => trivial⟩

theorem reader_getTenant (id : String) : Reader (getTenant id) := by
  refine ⟨reads_tenantGet id, fun t => ?_⟩
  cases t with
  | none => trivial
  | some t => trivial

/-- Behind `authenticated`, a program matters only for a token that verifies. -/
theorem reader_authenticated {next : Claims → Program interface Answer}
    (h : Verified s r.authorization → ∀ claims, Reader (next claims)) :
    Reader (authenticated s r next) := by
  unfold authenticated
  split
  · trivial
  · rename_i htoken
    split
    · trivial
    · rename_i claims hclaims
      exact h ⟨htoken, claims, hclaims⟩ claims

/-- Behind `guard`, a program matters only for the configured token. -/
theorem reader_guard {next : Program interface Answer}
    (h : bearerToken r.authorization = s.adminToken → Reader next) :
    Reader (guard s r next) := by
  unfold guard
  split
  · trivial
  · rename_i htoken
    exact h (not_not.mp htoken)

theorem reader_handleAPI (h : ¬ MayWrite s r) : Reader (handleAPI s r) := by
  have hclient : ∀ {e values}, apiMux.route r.method r.path = .handler e values →
      (e = .enroll ∨ e = .heartbeat ∨ e = .deregister) →
      ∀ next : Claims → Program interface Answer, Reader (authenticated s r next) := by
    intro e values hroute he next
    obtain ⟨hmethod, hpath⟩ := client_of_route hroute he
    exact reader_authenticated fun hverified =>
      absurd (MayWrite.client hmethod hpath hverified) h
  unfold handleAPI
  cases hroute : apiMux.route r.method r.path with
  | moved => trivial
  | methodNotAllowed => trivial
  | notFound => trivial
  | handler e values =>
      cases e with
      | healthz => trivial
      | enroll => exact hclient hroute (by simp) _
      | heartbeat => exact hclient hroute (by simp) _
      | deregister => exact hclient hroute (by simp) _
      | tenants => exact reader_authenticated fun _ claims => reader_handleTenants claims

theorem reader_handle (h : ¬ MayWrite s r) : Reader (handle s r) := by
  have hadmin : ∀ {root values}, (rootMux s.adminToken).route r.method r.path =
      .handler root values → (root = .createTenant ∨ root = .updateTenant ∨ root = .deleteTenant) →
      ∀ next : Program interface Answer, Reader (guard s r next) := by
    intro root values hroute hroot next
    obtain ⟨htoken, htarget⟩ := admin_of_route hroute hroot
    exact reader_guard fun hpresented => absurd (MayWrite.admin htarget htoken hpresented) h
  unfold handle
  cases hroute : (rootMux s.adminToken).route r.method r.path with
  | moved => trivial
  | methodNotAllowed => trivial
  | notFound => trivial
  | handler root values =>
      cases root with
      | overview => exact reader_guard fun _ => reader_overview
      | listTenants => exact reader_guard fun _ => reader_listTenants
      | createTenant => exact hadmin hroute (by simp) _
      | getTenant => exact reader_guard fun _ => reader_getTenant _
      | updateTenant => exact hadmin hroute (by simp) _
      | deleteTenant => exact hadmin hroute (by simp) _
      | pages => trivial
      | disabled => trivial
      | metrics => exact reader_metrics
      | api => exact reader_handleAPI h

/-- A stream whose token does not verify does nothing. -/
theorem reader_watch {authorization : List String} {key : String} {n : ℕ}
    (h : ¬ ∃ claims, s.verify (bearerFromContext authorization) = .ok claims) :
    Reader (watch s authorization key n) := by
  unfold watch
  split
  · trivial
  · split
    · trivial
    · rename_i claims hclaims
      exact absurd ⟨claims, hclaims⟩ h

end Readers

namespace Sample

open Api.Sample (claims key₁ config)

/-- Tokens are the names of their owners, and bodies are decoded already. -/
def surface : Surface Api.EnrollRequest where
  cfg := config false
  verify token := if token = "alice" then .ok (claims "alice") else .error "unknown"
  adminToken := "secret"
  decodeEnroll := .ok
  decodeHeartbeat b := .ok ⟨b.publicKey⟩
  decodeDeregister b := .ok ⟨b.publicKey⟩
  decodeTenant _ := .ok Grpc.Sample.moved
  errorText _ := ""

def laptop : Api.EnrollRequest := ⟨key₁, ⟨"laptop", "linux"⟩, ""⟩

/-- Enroll the first key, with the given header. -/
def enrollment (authorization : FieldValue) : Request Api.EnrollRequest :=
  ⟨"POST", ["api", "v1", "enroll"], [authorization], laptop⟩

def fromAlice : FieldValue := ⟨"Bearer alice", by decide⟩

def fromMallory : FieldValue := ⟨"Bearer mallory", by decide⟩

end Sample

section Administrators

variable [CaseTables] {token : String}

theorem trimSpace_bearer {value : String} (h : bearer value = some token) :
    trimSpace token = token := by
  unfold bearer at h
  split at h
  · rw [← Option.some.inj h]
    exact trimSpace_eq_self_iff.mpr (trimmed_trimSpace _)
  · exact absurd h (by simp)

/-- What a client sends for a token. -/
theorem bearer_header (h : token ≠ "") : bearer ("Bearer " ++ token) = some (trimSpace token) := by
  have htext : ("Bearer " ++ token).toList = "Bearer ".toList ++ token.toList :=
    String.toList_append
  have hseven : "Bearer ".toList.length = 7 := by decide
  have hlength : 7 < ("Bearer " ++ token).toList.length := by
    have hpos : 0 < token.toList.length :=
      List.length_pos_iff.mpr fun hnil =>
        h (String.toList_inj.mp (hnil.trans String.toList_empty.symm))
    rw [htext, List.length_append]
    exact Nat.lt_add_of_pos_right hpos
  have htake : String.ofList (("Bearer " ++ token).toList.take 7) = "Bearer " := by
    rw [htext, ← hseven, List.take_left, String.ofList_toList]
  have hdrop : String.ofList (("Bearer " ++ token).toList.drop 7) = token := by
    rw [htext, ← hseven, List.drop_left, String.ofList_toList]
  rw [bearer, htake, hdrop, if_pos ⟨hlength, decide_eq_true rfl⟩]

theorem mem_bearer {value : String} (h : bearer value = some token) {c : Char}
    (hc : c ∈ token.toList) : c ∈ value.toList := by
  unfold bearer at h
  split at h
  · obtain rfl := Option.some.inj h
    rw [trimSpace, String.toList_ofList] at hc
    have hrest := mem_of_mem_trimChars hc
    rw [String.toList_ofList] at hrest
    exact List.mem_of_mem_drop hrest
  · exact absurd h (by simp)

/-- A token that a header can carry: it has no white space at its ends, and no
control character but the tab. -/
def Presentable (token : String) : Prop :=
  token ≠ "" ∧ trimSpace token = token ∧ token.toList.all isFieldChar = true

instance : Decidable (Presentable token) := inferInstanceAs (Decidable (_ ∧ _ ∧ _))

theorem exists_bearerToken_iff :
    (∃ authorization, token ≠ "" ∧ bearerToken authorization = token) ↔ Presentable token := by
  constructor
  · rintro ⟨authorization, htoken, hpresented⟩
    cases authorization with
    | nil => exact absurd hpresented.symm htoken
    | cons value rest =>
        rw [bearerToken, List.head?_cons, Option.map_some, Option.getD_some] at hpresented
        cases hbearer : bearer value.text with
        | none =>
            rw [hbearer] at hpresented
            exact absurd hpresented.symm htoken
        | some found =>
            rw [hbearer] at hpresented
            obtain rfl : found = token := hpresented
            refine ⟨htoken, trimSpace_bearer hbearer, List.all_eq_true.mpr fun c hc => ?_⟩
            exact List.all_eq_true.mp value.valid c (mem_bearer hbearer hc)
  · rintro ⟨htoken, htrim, hchars⟩
    have hvalid : ("Bearer " ++ token).toList.all isFieldChar = true := by
      rw [String.toList_append, List.all_append, hchars, Bool.and_true]
      decide
    refine ⟨[⟨"Bearer " ++ token, hvalid⟩], htoken, ?_⟩
    rw [bearerToken, List.head?_cons, Option.map_some, Option.getD_some, bearer_header htoken,
      Option.getD_some, htrim]

/-- A change of a tenant, as the admin API offers it. -/
inductive Change where
  | create (t : Tenant)
  | update (id : String) (inp : Tenant)
  | delete (id : String)

/-- The call of the tenant store that makes the change. -/
def Change.call : Change → HubCall
  | .create t => .create t
  | .update id inp => .update id inp
  | .delete id => .delete id

variable {Body : Type} {s : Surface Body}

/-- The request for a change, whoever makes it. -/
inductive Asks (s : Surface Body) (body : Body) : String → List String → Change → Prop
  | create {t : Tenant} (hbody : s.decodeTenant body = .ok t) :
      Asks s body "POST" ["admin", "api", "tenants"] (.create t)
  | update {id : String} {t : Tenant} (hid : id ≠ "") (hbody : s.decodeTenant body = .ok t) :
      Asks s body "PUT" ["admin", "api", "tenants", id] (.update id t)
  | delete {id : String} (hid : id ≠ "") :
      Asks s body "DELETE" ["admin", "api", "tenants", id] (.delete id)

/-- The answer to a change of the tenant store. -/
def Change.answer (s : Surface Body) (store : TenantStore) : Change → Answer
  | .create t => changed s (store.create t).1
  | .update id inp => changed s (store.update id inp).1
  | .delete id =>
      match (store.delete id).1 with
      | .error err => .adminError 400 (s.errorText err)
      | .ok () => .noContent

/-- The gateway after the change. Nothing but the tenants and their watchers is
touched. -/
def Change.made (c : Change) (g : Gateway) : Gateway :=
  ⟨{ g.server with tenants := c.call.onStore g.server.tenants }, Grpc.after g.hub c.call⟩

/-- The header carries the configured token. -/
def Surface.Admits (s : Surface Body) (authorization : List FieldValue) : Prop :=
  s.adminToken ≠ "" ∧ bearerToken authorization = s.adminToken

instance (authorization : List FieldValue) : Decidable (s.Admits authorization) :=
  inferInstanceAs (Decidable (_ ∧ _))

/-- The answer to everybody else. -/
def Surface.refusal (s : Surface Body) : Answer :=
  if s.adminToken = "" then .text 503 "admin disabled (set ADMIN_TOKEN)"
  else .adminError 401 "unauthorized"

/-- The handler of a change, once it is let in. -/
def Change.handler (s : Surface Body) : Change → Program interface Answer
  | .create t => do return changed s (← perform (.gateway (.api (.createTenant t))))
  | .update id inp => do return changed s (← perform (.gateway (.api (.updateTenant id inp))))
  | .delete id => deleteTenant s id

variable {method : String} {path : List String} {body : Body} {c : Change}

-- A route is found by going through the patterns.
attribute [local simp] Mux.route Mux.redirects Mux.find rootMux adminMux exactly oneTenant
  adminTree capture Pattern.captured Pattern.allows Pattern.exact

/-- The request for a change comes to its handler behind `guard`. -/
theorem handle_asks (h : Asks s body method path c) (htoken : s.adminToken ≠ "")
    (authorization : List FieldValue) :
    handle s ⟨method, path, authorization, body⟩ =
      guard s ⟨method, path, authorization, body⟩ (c.handler s) := by
  cases h with
  | create hbody =>
      have hroute : (rootMux s.adminToken).route "POST" ["admin", "api", "tenants"] =
          .handler .createTenant [] := by simp [htoken]
      simp only [handle, hroute, createTenant, hbody]
      rfl
  | @update id t hid hbody =>
      have hroute : (rootMux s.adminToken).route "PUT" ["admin", "api", "tenants", id] =
          .handler .updateTenant [id] := by simp [htoken, hid]
      simp only [handle, hroute, updateTenant, hbody]
      rfl
  | @delete id hid =>
      have hroute : (rootMux s.adminToken).route "DELETE" ["admin", "api", "tenants", id] =
          .handler .deleteTenant [id] := by simp [htoken, hid]
      simp only [handle, hroute]
      rfl

/-- Without a token there is only a notice. -/
theorem handle_disabled (h : Asks s body method path c) (htoken : s.adminToken = "")
    (authorization : List FieldValue) :
    handle s ⟨method, path, authorization, body⟩ =
      .ret (.text 503 "admin disabled (set ADMIN_TOKEN)") := by
  have hroute : (rootMux s.adminToken).route method path = .handler .disabled [] := by
    cases h with
    | create hbody => simp [htoken]
    | update hid hbody => simp [htoken]
    | delete hid => simp [htoken]
  simp only [handle, hroute]
  rfl

/-- What the handler does. -/
theorem run_handler (c : Change) (ω : StreamOracle) (g : Gateway) :
    (c.handler s).run exec ω g = (c.answer s g.server.tenants, ω, c.made g) := by
  cases c with
  | create t =>
      simp [Change.handler, Change.answer, Change.made, Change.call, HubCall.onStore, Grpc.follow]
  | update id inp =>
      simp [Change.handler, Change.answer, Change.made, Change.call, HubCall.onStore, Grpc.follow]
  | delete id =>
      cases hdelete : (g.server.tenants.delete id).1 with
      | error err =>
          simp [Change.handler, deleteTenant, Change.answer, Change.made, Change.call,
            HubCall.onStore, Grpc.follow, hdelete]
      | ok u =>
          simp [Change.handler, deleteTenant, Change.answer, Change.made, Change.call,
            HubCall.onStore, Grpc.follow, hdelete]

/-- **The admin API is open to the configured token.** A request for a change makes
it if its header carries the token, and leaves the gateway as it is otherwise. Some
header carries the token exactly if the token is not empty, has no white space at
its ends and no control character but the tab. -/
theorem admin_open_iff (s : Surface Body) (h : Asks s body method path c) :
    (∀ authorization ω g,
      let done := (handle s ⟨method, path, authorization, body⟩).run exec ω g
      (done.1, done.2.2) =
        if s.Admits authorization then (c.answer s g.server.tenants, c.made g)
        else (s.refusal, g)) ∧
      ((∃ authorization, s.Admits authorization) ↔ Presentable s.adminToken) := by
  refine ⟨fun authorization ω g => ?_, exists_bearerToken_iff⟩
  by_cases htoken : s.adminToken = ""
  · have hnot : ¬ s.Admits authorization := fun hadmits => hadmits.1 htoken
    rw [handle_disabled h htoken, if_neg hnot, Surface.refusal, if_pos htoken]
    rfl
  · rw [handle_asks h htoken, guard]
    by_cases hpresented : bearerToken authorization = s.adminToken
    · have hadmits : s.Admits authorization := ⟨htoken, hpresented⟩
      rw [if_neg (not_not.mpr hpresented), if_pos hadmits, run_handler]
    · have hnot : ¬ s.Admits authorization := fun hadmits => hpresented hadmits.2
      rw [if_pos hpresented, if_neg hnot, Surface.refusal, if_neg htoken]
      rfl

end Administrators

attribute [local instance] GoText.asciiTables

namespace Sample

def gateway : Gateway := ⟨Api.Sample.start, .new ["10.80.0.0/29"] []⟩

def fromAdmin : FieldValue := ⟨"Bearer secret", by decide⟩

/-- Give the default tenant other routes, where the token is the given one. -/
def updating (token : String) : Answer × StreamOracle × Gateway :=
  (handle { surface with adminToken := token }
    ⟨"PUT", ["admin", "api", "tenants", defaultID], [fromAdmin], laptop⟩).run exec
    Grpc.Sample.oracle gateway

end Sample

/-- A token that was read with the end of its line, or that has a line break in it,
locks everybody out. -/
theorem line_break_locks_out :
    (Sample.updating "secret").2.2.server.tenants.routes defaultID =
        some ⟨["10.99.0.0/16"], [], 2⟩ ∧
      (Sample.updating "secret\n").1 = .adminError 401 "unauthorized" ∧
      (Sample.updating "secret\n").2.2 = Sample.gateway ∧
      (¬ ∃ authorization, { Sample.surface with adminToken := "secret\n" }.Admits authorization) ∧
      ¬ ∃ authorization,
        { Sample.surface with adminToken := "secret\nsecret" }.Admits authorization := by
  have hasks : ∀ token, Asks { Sample.surface with adminToken := token } Sample.laptop "PUT"
      ["admin", "api", "tenants", defaultID] (.update defaultID Grpc.Sample.moved) :=
    fun token => .update (by decide) rfl
  have hrun := fun token =>
    (admin_open_iff _ (hasks token)).1 [Sample.fromAdmin] Grpc.Sample.oracle Sample.gateway
  have hopen := fun token => (admin_open_iff _ (hasks token)).2
  have hmade := (hrun "secret").trans (if_pos (by decide +kernel))
  have hrefused := (hrun "secret\n").trans (if_neg (by decide +kernel))
  refine ⟨?_, (Prod.mk.inj hrefused).1, (Prod.mk.inj hrefused).2, ?_, ?_⟩
  · rw [Sample.updating, (Prod.mk.inj hmade).2]
    decide +kernel
  · rw [hopen "secret\n"]
    decide +kernel
  · rw [hopen "secret\nsecret"]
    decide +kernel

section Runs

variable [CaseTables] {Body : Type} {s : Surface Body}

/-- A request that may not change anything, or a stream whose token does not
verify. -/
def Unprivileged (s : Surface Body) (p : Program interface Answer) : Prop :=
  (∃ r, ¬ MayWrite s r ∧ p = handle s r) ∨
    ∃ authorization key n, (¬ ∃ claims, s.verify (bearerFromContext authorization) = .ok claims) ∧
      p = watch s authorization key n

theorem Unprivileged.reader {p : Program interface Answer} (h : Unprivileged s p) : Reader p := by
  rcases h with ⟨r, hr, rfl⟩ | ⟨authorization, key, n, hnone, rfl⟩
  · exact reader_handle hr
  · exact reader_watch hnone

abbrev Turn := Move interface StreamOracle Answer

/-- Any requests, streams and tasks, overlapping as they like. Whatever is started in
the hidden slots has no credentials. Without it the gateway ends up the same, and so
does every other request, stream and task, with every reply it got. -/
theorem unprivileged_invisible (g : Gateway) (hidden : ℕ → Bool) (turns : List Turn)
    (h : ∀ i p ω, .start i p ω ∈ turns → hidden i = true → Unprivileged s p) :
    let all := run (Pool.move exec) (.initial g) turns
    let rest := run (Pool.move exec) (.initial g) (turns.filter fun m => hidden m.slot = false)
    all.shared = rest.shared ∧ ∀ i, hidden i = false → all.thread i = rest.thread i := by
  intro all rest
  have hreaders : ∀ m ∈ turns, hidden m.slot = true → m.StartsReader exec := by
    intro m hm hslot
    cases m with
    | start i p ω => exact (h i p ω hm hslot).reader
    | advance i => trivial
  have hagree : Pool.Agree hidden all rest :=
    Pool.Agree.run_erase ⟨rfl, fun _ _ => rfl⟩ (Pool.hidesReaders_initial g) hreaders
  exact ⟨hagree.shared, hagree.thread⟩

end Runs

namespace Sample

/-- A stranger's enrollment and alice's, action by action. -/
def turns : List Turn :=
  [.start 0 (handle surface (enrollment fromMallory)) Grpc.Sample.oracle,
    .start 1 (handle surface (enrollment fromAlice)) Grpc.Sample.oracle] ++
    (List.replicate 8 [.advance 0, .advance 1]).flatten

end Sample

/-- A token of nobody gives no rights. -/
theorem not_mayWrite_mallory :
    ¬ MayWrite Sample.surface (Sample.enrollment Sample.fromMallory) := by
  have htoken : bearerToken (Sample.enrollment Sample.fromMallory).authorization = "mallory" := by
    decide +kernel
  rintro (⟨-, -, -, claims, hclaims⟩ | ⟨htarget, -, -⟩)
  · rw [htoken] at hclaims
    exact absurd hclaims (by simp [Sample.surface])
  · exact absurd htarget (by simp [ChangesTenant, Sample.enrollment])

theorem stranger_invisible :
    let all := run (Pool.move exec) (.initial Sample.gateway) Sample.turns
    let rest := run (Pool.move exec) (.initial Sample.gateway)
      (Sample.turns.filter fun m => (m.slot == 0) = false)
    all.shared = rest.shared ∧ all.thread 1 = rest.thread 1 ∧
      all.shared.server.store.get Api.Sample.key₁ ≠ none := by
  have h : ∀ i p ω, .start i p ω ∈ Sample.turns → (i == 0) = true →
      Unprivileged Sample.surface p := by
    intro i p ω hmem hi
    refine Or.inl ⟨Sample.enrollment Sample.fromMallory, not_mayWrite_mallory, ?_⟩
    simp only [Sample.turns, List.mem_append, List.mem_cons, Move.start.injEq, List.not_mem_nil,
      or_false, List.mem_flatten, List.mem_replicate] at hmem
    rcases hmem with (⟨-, rfl, -⟩ | ⟨rfl, -, -⟩) | ⟨l, ⟨-, rfl⟩, hl⟩
    · rfl
    · exact absurd hi (by decide)
    · exact absurd hl (by simp)
  obtain ⟨hshared, hthread⟩ := unprivileged_invisible Sample.gateway (· == 0) Sample.turns h
  exact ⟨hshared, hthread 1 rfl, by decide +kernel⟩

end Claimward.Http
