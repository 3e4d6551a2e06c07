import Claimward.Library.Observer
import Claimward.Ssfpoll.Requests

/-!
# Where the poller's requests come from

Every URL, token and acknowledgement in a request of the poller goes back to an
answer of the provider. The answers are all there is to go by: what is known
after some requests is defined here from those requests and their answers
alone, without the poller's own variables.
-/

namespace Claimward.Ssfpoll

open AtomicProgram Fallible

/-- What an answer tells, if anything. -/
inductive News where
  | nothing
  | configured (endpoint : String)
  | published (endpoint : String)
  | granted (out : TokenAnswer)
  | revoked
  | offered (url : String)
  | decoded (ids : List String)

/-- A request and its answer, a clock reading, or a kick. -/
abbrev Event (Body : Type) := Happening (interface Body)

section News

variable {Body : Type} (c : Codec Body) (cfg : Config)

def openidConfiguration : String := "/.well-known/openid-configuration"

/-- What a document that anybody may read tells. -/
def metadataNews (url : String) (body : Body) : News :=
  if url = cfg.issuer ++ wellKnown then
    match c.configurationEndpoint body with
    | .ok endpoint => .configured endpoint
    | .error _ => .nothing
  else
    match c.tokenEndpoint body with
    | .ok endpoint => .published endpoint
    | .error _ => .nothing

/-- What the answer to a token request tells, whatever its status. -/
def tokenNews (body : Body) : News :=
  match c.token body with
  | .ok out => if out.accessToken = "" then .nothing else .granted out
  | .error _ => .nothing

/-- What a document tells that was asked for with a token. -/
def documentNews (content : Content) (body : Body) : News :=
  match content with
  | .poll _ =>
      match c.sets body with
      | .ok ids => .decoded ids
      | .error _ => .nothing
  | .createStream =>
      match c.stream body with
      | .ok created => if created.endpointURL = "" then .nothing else .offered created.endpointURL
      | .error _ => .nothing
  | _ =>
      match c.rawMessage body with
      | .ok raw =>
          match (listed c raw).find? fun s => s.method = deliveryPoll ∧ s.endpointURL ≠ "" with
          | some s => .offered s.endpointURL
          | none => .nothing
      | .error _ => .nothing

def answerNews (r : Request) (status : ℕ) (body : Body) : News :=
  match r.authorization with
  | .anonymous => if status = 200 then metadataNews c cfg r.url body else .nothing
  | .basic _ _ => tokenNews c body
  | .bearer _ =>
      if status / 100 = 2 then documentNews c r.content body
      else if status = 401 then .revoked
      else .nothing

def exchangeNews (r : Request) : Answer Body → News
  | .failed _ => .nothing
  | .answered status body => answerNews c cfg r status body

def news : Event Body → News
  | ⟨.send r, answer⟩ => exchangeNews c cfg r answer
  | _ => .nothing

def reading : Event Body → Option Int
  | ⟨.now, t⟩ => some t
  | _ => none

end News

def News.configured? : News → Option String
  | .configured endpoint => some endpoint
  | _ => none

def News.published? : News → Option String
  | .published endpoint => some endpoint
  | _ => none

def News.granted? : News → Option TokenAnswer
  | .granted out => some out
  | _ => none

def News.offered? : News → Option String
  | .offered url => some url
  | _ => none

def News.decoded? : News → Option (List String)
  | .decoded ids => some ids
  | _ => none

section Known

variable {Body : Type} (c : Codec Body) (cfg : Config) (past : List (Event Body))

/-- The configuration endpoint that the provider named last. -/
def configured : Option String := past.findSome? fun e => (news c cfg e).configured?

/-- The token endpoint that the provider named last. -/
def published : Option String := past.findSome? fun e => (news c cfg e).published?

/-- The poll endpoint that the provider named last. -/
def offered : Option String := past.findSome? fun e => (news c cfg e).offered?

/-- The ids of the events that were received last. -/
def received : List String := (past.findSome? fun e => (news c cfg e).decoded?).getD []

/-- The token that the last answer grants. -/
def justGranted : Option TokenAnswer := past.head?.bind fun e => (news c cfg e).granted?

/-- The last answer brought events, and no fetch has been asked for yet. -/
def Undelivered : Prop :=
  ∃ ids, ids ≠ [] ∧ (past.head?.bind fun e => (news c cfg e).decoded?) = some ids

/-- The end of a token granted at an instant. -/
def TokenAnswer.endsAt (out : TokenAnswer) (t : Int) : Int :=
  t + (out.expiresIn * 1000000000).toInt

/-- The token that may be used, with its end: the one granted last, unless a
request with it has been refused since. Its time runs from the reading of the
clock that follows the grant. -/
def held : List (Event Body) → Option (String × Int)
  | [] => none
  | e :: past =>
      match news c cfg e, reading e, justGranted c cfg past with
      | .revoked, _, _ => none
      | _, some t, some out => some (out.accessToken, out.endsAt t)
      | _, _, _ => held past

/-- The clock has just been read, and the token was granted just before or has
more than 30 seconds left. -/
def Fresh (tok : String) : Prop :=
  ∃ t older ending, past = ⟨.now, t⟩ :: older ∧ held c cfg past = some (tok, ending) ∧
    ((justGranted c cfg older).isSome ∨ ending - t > 30000000000)

/-- The request is one that the provider's answers so far justify. -/
def Request.Justified (r : Request) : Prop :=
  match r.authorization with
  | .anonymous =>
      r.content = .empty ∧
        (r.url = cfg.issuer ++ wellKnown ∨ r.url = cfg.issuer ++ openidConfiguration)
  | .basic user password =>
      r.content = .clientCredentials ∧ published c cfg past = some r.url ∧
        user = c.queryEscape cfg.clientID ∧ password = c.queryEscape cfg.clientSecret
  | .bearer tok =>
      Fresh c cfg past tok ∧
        match r.content with
        | .poll acks => offered c cfg past = some r.url ∧ acks = received c cfg past
        | .clientCredentials => False
        | _ => configured c cfg past = some r.url

/-- The action is justified by what has happened before. A fetch of the list is
asked for after every answer with events, at once and only then. -/
def Justified : Action → Prop
  | .send r => ¬ Undelivered c cfg past ∧ r.Justified c cfg past
  | .now => ¬ Undelivered c cfg past
  | .kick => Undelivered c cfg past

end Known

section Cons

variable {Body : Type} {c : Codec Body} {cfg : Config} {past : List (Event Body)} {e : Event Body}

theorem configured_cons :
    configured c cfg (e :: past) = (news c cfg e).configured?.or (configured c cfg past) := by
  rw [configured, List.findSome?_cons]
  cases (news c cfg e).configured? with
  | none => rfl
  | some endpoint => rfl

theorem published_cons :
    published c cfg (e :: past) = (news c cfg e).published?.or (published c cfg past) := by
  rw [published, List.findSome?_cons]
  cases (news c cfg e).published? with
  | none => rfl
  | some endpoint => rfl

theorem offered_cons :
    offered c cfg (e :: past) = (news c cfg e).offered?.or (offered c cfg past) := by
  rw [offered, List.findSome?_cons]
  cases (news c cfg e).offered? with
  | none => rfl
  | some url => rfl

theorem received_cons :
    received c cfg (e :: past) = (news c cfg e).decoded?.getD (received c cfg past) := by
  rw [received, List.findSome?_cons]
  cases (news c cfg e).decoded? with
  | none => rfl
  | some ids => rfl

theorem undelivered_cons :
    Undelivered c cfg (e :: past) ↔ ∃ ids, ids ≠ [] ∧ (news c cfg e).decoded? = some ids :=
  Iff.rfl

theorem held_cons (hnews : news c cfg e ≠ .revoked) (hgrant : justGranted c cfg past = none) :
    held c cfg (e :: past) = held c cfg past := by
  rw [held, hgrant]
  split
  · exact absurd ‹_› hnews
  · rename_i hsome _
    exact absurd hsome (by simp)
  · rfl

theorem held_now {out : TokenAnswer} {t : Int} (hgrant : justGranted c cfg past = some out) :
    held c cfg (⟨.now, t⟩ :: past) = some (out.accessToken, out.endsAt t) := by
  rw [held, hgrant]
  rfl

theorem held_revoked (hnews : news c cfg e = .revoked) : held c cfg (e :: past) = none := by
  rw [held, hnews]

end Cons

/-- The poller's variables say what is known. -/
structure Knows {Body : Type} (c : Codec Body) (cfg : Config) (p : Poller)
    (past : List (Event Body)) : Prop where
  ungranted : justGranted c cfg past = none
  token : held c cfg past = if p.token = "" then none else some (p.token, p.tokenEnd)
  tokenURL : p.tokenURL ≠ "" → published c cfg past = some p.tokenURL
  pollURL : p.pollURL ≠ "" → offered c cfg past = some p.pollURL
  acks : received c cfg past = p.acks

/-- They do, and no events are undelivered. -/
structure Kept {Body : Type} (c : Codec Body) (cfg : Config) (p : Poller)
    (past : List (Event Body)) : Prop extends Knows c cfg p past where
  idle : ¬ Undelivered c cfg past

/-- The poller that has kept what an answer tells. A token is kept only after the
next reading of the clock. -/
def Poller.learn (p : Poller) : News → Poller
  | .published endpoint => { p with tokenURL := endpoint }
  | .revoked => { p with token := "" }
  | .offered url => { p with pollURL := url }
  | .decoded ids => { p with acks := ids }
  | _ => p

/-- What requests for tokens leave as it is. -/
def context {Body : Type} (c : Codec Body) (cfg : Config) (past : List (Event Body)) :
    Option String × Option String × List String :=
  (configured c cfg past, offered c cfg past, received c cfg past)

section Walk

variable {Body α : Type} {c : Codec Body} {cfg : Config} {p : Poller} {past : List (Event Body)}
  {e : Event Body} {x : Option String × Option String × List String}

theorem kept_new : Kept c cfg Poller.new ([] : List (Event Body)) where
  ungranted := rfl
  token := rfl
  tokenURL := fun h => absurd rfl h
  pollURL := fun h => absurd rfl h
  acks := rfl
  idle := fun ⟨_, _, h⟩ => by simp at h

theorem Knows.learn (h : Knows c cfg p past) (hgrant : (news c cfg e).granted? = none) :
    Knows c cfg (p.learn (news c cfg e)) (e :: past) := by
  refine ⟨hgrant, ?_, ?_, ?_, ?_⟩
  · cases hnews : news c cfg e with
    | revoked => exact held_revoked hnews
    | granted out =>
        rw [hnews] at hgrant
        exact absurd hgrant (by simp [News.granted?])
    | _ => exact (held_cons (by simp [hnews]) h.ungranted).trans h.token
  · rw [published_cons]
    cases hnews : news c cfg e with
    | published endpoint => exact fun _ => rfl
    | _ => exact h.tokenURL
  · rw [offered_cons]
    cases hnews : news c cfg e with
    | offered url => exact fun _ => rfl
    | _ => exact h.pollURL
  · rw [received_cons]
    cases hnews : news c cfg e with
    | decoded ids => rfl
    | _ => exact h.acks

/-- An answer without events. -/
theorem Kept.learn {n : News} (h : Kept c cfg p past) (hnews : news c cfg e = n)
    (hgrant : n.granted? = none) (hdecoded : ∀ ids, n.decoded? = some ids → ids = []) :
    Kept c cfg (p.learn n) (e :: past) := by
  subst hnews
  refine ⟨h.toKnows.learn hgrant, ?_⟩
  rintro ⟨ids, hne, hids⟩
  exact hne (hdecoded ids hids)

theorem Kept.quiet (h : Kept c cfg p past) (hnews : news c cfg e = .nothing) :
    Kept c cfg p (e :: past) :=
  h.learn hnews rfl fun _ hids => absurd hids (by simp [News.decoded?])

theorem context_quiet (hnews : news c cfg e = .nothing) :
    context c cfg (e :: past) = context c cfg past := by
  simp [context, configured_cons, offered_cons, received_cons, hnews, News.configured?,
    News.offered?, News.decoded?]

/-- A document that anybody may read, asked for by a poller that needs it. -/
theorem Kept.metadata (h : Kept c cfg p past) {url : String} {answer : Answer Body}
    (hurl : url = cfg.issuer ++ wellKnown ∨ p.tokenURL = "") :
    Kept c cfg p (⟨.send ⟨"GET", url, .anonymous, .empty⟩, answer⟩ :: past) := by
  cases answer with
  | failed err => exact h.quiet rfl
  | answered status body =>
      by_cases hstatus : status = 200
      · have hnews : news c cfg ⟨.send ⟨"GET", url, .anonymous, .empty⟩, .answered status body⟩ =
            metadataNews c cfg url body := if_pos hstatus
        unfold metadataNews at hnews
        split at hnews
        · split at hnews
          · exact h.learn hnews rfl fun _ hids => absurd hids (by simp [News.decoded?])
          · exact h.quiet hnews
        · rename_i hother
          split at hnews
          · -- The endpoint is not kept yet, and there is none to compare it with.
            have hlearned := h.learn hnews rfl fun _ hids => absurd hids (by simp [News.decoded?])
            exact ⟨⟨hlearned.ungranted, hlearned.token,
              fun hsome => absurd (hurl.resolve_left hother) hsome, hlearned.pollURL,
              hlearned.acks⟩, hlearned.idle⟩
          · exact h.quiet hnews
      · exact h.quiet (if_neg hstatus)

theorem eq_ok_of_mapError {ε ε' : Type} {f : ε → ε'} {result : Except ε α} {v : α}
    (h : result.mapError f = .ok v) : result = .ok v := by
  cases result with
  | ok v' => rw [Except.ok.inj h]
  | error err => exact absurd h (by simp [Except.mapError])

/-- A request is made and sent. -/
theorem tracks_exchange {r : Request} {Pre Err : Poller → List (Event Body) → Prop}
    (hsend : ∀ p past, Pre p past → Justified c cfg past (.send r))
    (herr : ∀ p past, Pre p past → Err p past)
    (hfailed : ∀ err p past, Pre p past → Err p (⟨.send r, .failed err⟩ :: past)) :
    Tracks (Justified c cfg) Pre
      (fun answer p past => ∃ older,
        past = ⟨.send r, .answered answer.1 answer.2⟩ :: older ∧ Pre p older)
      Err (exchange c r) := by
  have hparse : Tracks (Justified c cfg) Pre (fun _ => Pre) Err
      (check ((c.parse r.url).mapError .badURL) : Poll Body URL) :=
    tracks_check (fun _ _ _ _ hpre => hpre) fun _ p past _ => herr p past
  have hperform : Tracks (Justified c cfg) Pre
      (fun answer p past => ∃ older, past = ⟨.send r, answer⟩ :: older ∧ Pre p older) Err
      (perform (I := interface Body) (.send r) : Poll Body (Answer Body)) :=
    tracks_perform hsend fun answer p past hpre => ⟨past, rfl, hpre⟩
  apply hparse.bind
  intro _
  apply hperform.bind
  intro answer
  cases answer with
  | failed err =>
      apply tracks_throw
      rintro p past ⟨older, hpast, hpre⟩
      rw [hpast]
      exact hfailed err p older hpre
  | answered status body => exact tracks_pure fun p past hpre => hpre

theorem tracks_document {url : String} {decode : Body → Except String α}
    {Pre : Poller → List (Event Body) → Prop}
    (hurl : url = cfg.issuer ++ wellKnown ∨ url = cfg.issuer ++ openidConfiguration)
    (hpre : ∀ p past, Pre p past →
      Kept c cfg p past ∧ (url = cfg.issuer ++ wellKnown ∨ p.tokenURL = "")) :
    Tracks (Justified c cfg) Pre
      (fun v p past => ∃ older body, past =
        ⟨.send ⟨"GET", url, .anonymous, .empty⟩, .answered 200 body⟩ :: older ∧
          decode body = .ok v ∧ Pre p older)
      (Kept c cfg) (get c url decode) := by
  have hdone : ∀ answer p past, Pre p past →
      Kept c cfg p (⟨.send ⟨"GET", url, .anonymous, .empty⟩, answer⟩ :: past) :=
    fun _ p past h => (hpre p past h).1.metadata (hpre p past h).2
  have hcheck : Tracks (Justified c cfg) Pre (fun _ => Pre) (Kept c cfg)
      (check (protectedURL c url) : Poll Body Unit) :=
    tracks_check (fun _ _ _ _ h => h) fun _ p past _ h => (hpre p past h).1
  apply hcheck.bind
  intro _
  refine (tracks_exchange (r := ⟨"GET", url, .anonymous, .empty⟩)
    (fun p past h => ⟨(hpre p past h).1.idle, rfl, hurl⟩)
    (fun p past h => (hpre p past h).1) fun err => hdone (.failed err)).bind ?_
  rintro ⟨status, body⟩
  dsimp only
  split
  · apply tracks_throw
    rintro p past ⟨older, hpast, h⟩
    rw [hpast]
    exact hdone _ p older h
  · rename_i hstatus
    obtain rfl : status = 200 := not_not.mp hstatus
    apply tracks_check
    · rintro v p past hdecode ⟨older, hpast, h⟩
      exact ⟨older, body, hpast, eq_ok_of_mapError hdecode, h⟩
    · rintro _ p past _ ⟨older, hpast, h⟩
      rw [hpast]
      exact hdone _ p older h

/-- The two documents are at different places. -/
theorem openid_ne_wellKnown : openidConfiguration ≠ wellKnown := by decide

/-- The variables say what is known, and the rest of what is known is `x`. -/
def KeptAt (c : Codec Body) (cfg : Config) (x : Option String × Option String × List String)
    (p : Poller) (past : List (Event Body)) : Prop :=
  Kept c cfg p past ∧ context c cfg past = x

theorem KeptAt.quiet (h : KeptAt c cfg x p past) (hnews : news c cfg e = .nothing) :
    KeptAt c cfg x p (e :: past) :=
  ⟨h.1.quiet hnews, (context_quiet hnews).trans h.2⟩

theorem tracks_clock {Pre : Poller → List (Event Body) → Prop}
    (h : ∀ p past, Pre p past → ¬ Undelivered c cfg past) :
    Tracks (Justified c cfg) Pre
      (fun t p past => ∃ older, past = ⟨.now, t⟩ :: older ∧ Pre p older) (Kept c cfg)
      (clock : Poll Body Int) :=
  tracks_perform h fun _ _ past hpre => ⟨past, rfl, hpre⟩

theorem tracks_tokenEndpoint :
    Tracks (Justified c cfg) (KeptAt c cfg x)
      (fun u p past => KeptAt c cfg x p past ∧ published c cfg past = some u) (Kept c cfg)
      (tokenEndpoint c cfg) := by
  apply tracks_get
  intro p
  split
  · rename_i hkept
    apply tracks_pure
    rintro p' past ⟨hp, h⟩
    subst hp
    exact ⟨h, h.1.tokenURL hkept⟩
  · rename_i hnone
    have hnone : p.tokenURL = "" := not_not.mp hnone
    refine (tracks_document (Or.inr rfl) ?_).bind fun endpoint => ?_
    · rintro p' past ⟨hp, h⟩
      exact ⟨h.1, Or.inr (hp ▸ hnone)⟩
    · have hpublished : ∀ p' past, (∃ older body, past =
          ⟨.send ⟨"GET", cfg.issuer ++ openidConfiguration, .anonymous, .empty⟩,
            .answered 200 body⟩ :: older ∧ c.tokenEndpoint body = .ok endpoint ∧
          p' = p ∧ KeptAt c cfg x p' older) →
          KeptAt c cfg x p' past ∧ p'.tokenURL = "" ∧
            published c cfg past = some endpoint := by
        rintro p' past ⟨older, body, hpast, hdecode, hp, h⟩
        have hnews : news c cfg ⟨.send ⟨"GET", cfg.issuer ++ openidConfiguration, .anonymous,
            .empty⟩, .answered 200 body⟩ = .published endpoint := by
          simp [news, exchangeNews, answerNews, metadataNews, openid_ne_wellKnown, hdecode]
        subst hpast hp
        refine ⟨⟨h.1.metadata (Or.inr hnone), ?_⟩, hnone, ?_⟩
        · rw [← h.2]
          simp [context, configured_cons, offered_cons, received_cons, hnews, News.configured?,
            News.offered?, News.decoded?]
        · rw [published_cons, hnews]
          rfl
      refine (tracks_check (fun _ _ _ _ h => h) fun _ p' past _ h =>
        (hpublished p' past h).1.1).bind fun _ => ?_
      refine (tracks_modify fun p' past h => ?_).bind fun _ => tracks_pure fun _ _ h => h
      obtain ⟨⟨hkept, hx⟩, -, hnamed⟩ := hpublished p' past h
      exact ⟨⟨⟨⟨hkept.ungranted, hkept.token, fun _ => hnamed, hkept.pollURL, hkept.acks⟩,
        hkept.idle⟩, hx⟩, hnamed⟩

/-- A granted token and the reading of the clock after it. -/
theorem KeptAt.granted (h : KeptAt c cfg x p past) {out : TokenAnswer} {t : Int}
    (hnews : news c cfg e = .granted out) (htoken : out.accessToken ≠ "") :
    KeptAt c cfg x { p with token := out.accessToken, tokenEnd := out.endsAt t }
        (⟨.now, t⟩ :: e :: past) ∧
      Fresh c cfg (⟨.now, t⟩ :: e :: past) out.accessToken := by
  have hgrant : justGranted c cfg (e :: past) = some out := by
    simp [justGranted, hnews, News.granted?]
  have hcontext : context c cfg (⟨.now, t⟩ :: e :: past) = x := by
    rw [context_quiet rfl, ← h.2]
    simp [context, configured_cons, offered_cons, received_cons, hnews, News.configured?,
      News.offered?, News.decoded?]
  refine ⟨⟨⟨⟨rfl, ?_, fun hsome => ?_, fun hsome => ?_, ?_⟩, ?_⟩, hcontext⟩, ?_⟩
  · rw [held_now hgrant, if_neg htoken]
  · rw [published_cons, published_cons, hnews, ← h.1.tokenURL hsome]
    rfl
  · rw [offered_cons, offered_cons, hnews, ← h.1.pollURL hsome]
    rfl
  · rw [received_cons, received_cons, hnews, ← h.1.acks]
    rfl
  · exact fun ⟨_, _, hids⟩ => nomatch hids
  · exact ⟨t, e :: past, _, rfl, held_now hgrant, Or.inl (by rw [hgrant]; rfl)⟩

theorem tracks_requestToken :
    Tracks (Justified c cfg) (KeptAt c cfg x)
      (fun tok p past => KeptAt c cfg x p past ∧ Fresh c cfg past tok) (Kept c cfg)
      (requestToken c cfg) := by
  refine tracks_tokenEndpoint.bind fun u => ?_
  refine (tracks_exchange (r := ⟨"POST", u, .basic (c.queryEscape cfg.clientID)
    (c.queryEscape cfg.clientSecret), .clientCredentials⟩)
    (fun p past h => ⟨h.1.1.idle, rfl, h.2, rfl, rfl⟩) (fun p past h => h.1.1)
    fun err p past h => h.1.1.quiet rfl).bind ?_
  rintro ⟨status, body⟩
  dsimp only
  split
  · rename_i err hbody
    apply tracks_throw
    rintro p past ⟨older, hpast, h, -⟩
    rw [hpast]
    apply h.1.quiet
    simp [news, exchangeNews, answerNews, tokenNews, hbody]
  · rename_i out hbody
    split
    · rename_i hempty
      apply tracks_throw
      rintro p past ⟨older, hpast, h, -⟩
      rw [hpast]
      apply h.1.quiet
      simp [news, exchangeNews, answerNews, tokenNews, hbody, hempty]
    · rename_i htoken
      have hnews : ∀ r : Request, (∃ user password, r.authorization = .basic user password) →
          news c cfg ⟨.send r, .answered status body⟩ = .granted out := by
        rintro r ⟨user, password, hr⟩
        simp [news, exchangeNews, answerNews, tokenNews, hr, hbody, htoken]
      have hidle : ∀ r older, (∃ user password, r.authorization = .basic user password) →
          ¬ Undelivered c cfg (⟨.send r, .answered status body⟩ :: older) := by
        intro r older hr
        simp [undelivered_cons, hnews r hr, News.decoded?]
      refine (tracks_clock fun p past ⟨older, hpast, _⟩ =>
        hpast ▸ hidle _ older ⟨_, _, rfl⟩).bind fun t => ?_
      refine (tracks_modify fun p past ⟨older, hpast, older', hpast', h, _⟩ => ?_).bind
        fun _ => tracks_pure fun _ _ h => h
      rw [hpast, hpast']
      exact h.granted (hnews _ ⟨_, _, rfl⟩) htoken

theorem tracks_bearer :
    Tracks (Justified c cfg) (KeptAt c cfg x)
      (fun tok p past => KeptAt c cfg x p past ∧ Fresh c cfg past tok) (Kept c cfg)
      (bearer c cfg) := by
  apply tracks_get
  intro p
  split
  · exact tracks_requestToken.of_imp fun _ _ h => h.2
  · rename_i htoken
    refine (tracks_clock fun p past h => h.2.1.idle).bind fun t => ?_
    split
    · rename_i hleft
      apply tracks_pure
      rintro p' past ⟨older, hpast, hp, h⟩
      subst hpast hp
      refine ⟨h.quiet rfl, t, older, p'.tokenEnd, rfl, ?_, Or.inr hleft⟩
      have hnow : news c cfg ⟨.now, t⟩ ≠ .revoked := nofun
      rw [held_cons hnow h.1.ungranted, h.1.token, if_neg htoken]
    · refine tracks_requestToken.of_imp fun p' past ⟨older, hpast, _, h⟩ => ?_
      rw [hpast]
      exact h.quiet rfl

/-- A request with the poller's token, and a document that is decoded. -/
theorem tracks_call {method url : String} {content : Content} {decode : Body → Except String α}
    (hurl : ∀ past tok, context c cfg past = x → Fresh c cfg past tok →
      (⟨method, url, .bearer tok, content⟩ : Request).Justified c cfg past)
    (hdecode : ∀ body err, decode body = .error err → documentNews c content body = .nothing) :
    Tracks (Justified c cfg) (KeptAt c cfg x)
      (fun v p past => ∃ older body e, past = e :: older ∧
        news c cfg e = documentNews c content body ∧ decode body = .ok v ∧
        KeptAt c cfg x p older)
      (Kept c cfg) (call c cfg method url content decode) := by
  have hcheck : Tracks (Justified c cfg) (KeptAt c cfg x) (fun _ => KeptAt c cfg x) (Kept c cfg)
      (check (protectedURL c url) : Poll Body Unit) :=
    tracks_check (fun _ _ _ _ h => h) fun _ _ _ _ h => h.1
  apply hcheck.bind
  intro _
  apply tracks_bearer.bind
  intro tok
  refine (tracks_exchange (r := ⟨method, url, .bearer tok, content⟩)
    (fun p past h => ⟨h.1.1.idle, hurl past tok h.1.2 h.2⟩) (fun p past h => h.1.1)
    fun err p past h => h.1.1.quiet rfl).bind ?_
  rintro ⟨status, body⟩
  have hnews : news c cfg ⟨.send ⟨method, url, .bearer tok, content⟩, .answered status body⟩ =
      if status / 100 = 2 then documentNews c content body
      else if status = 401 then .revoked else .nothing := rfl
  change Tracks _ _ _ _ (accept method url decode status body)
  unfold accept
  split
  · rename_i hok
    rw [if_pos hok] at hnews
    apply tracks_check
    · rintro v p past hbody ⟨older, hpast, h, -⟩
      exact ⟨older, body, _, hpast, hnews, eq_ok_of_mapError hbody, h⟩
    · rintro err p past hbody ⟨older, hpast, h, -⟩
      rw [hpast]
      apply h.1.quiet
      rw [hnews]
      cases hresult : decode body with
      | ok v => exact absurd (hresult ▸ hbody) (by simp [Except.mapError])
      | error err => exact hdecode body err hresult
  · rename_i hstatus
    rw [if_neg hstatus] at hnews
    split
    · rename_i hrefused
      rw [if_pos hrefused] at hnews
      refine (tracks_modify fun p past ⟨older, hpast, h, _⟩ => ?_).bind
        fun _ => tracks_throw fun _ _ h => h
      rw [hpast]
      exact h.1.learn hnews rfl fun _ hids => absurd hids (by simp [News.decoded?])
    · rename_i hrefused
      rw [if_neg hrefused] at hnews
      apply tracks_throw
      rintro p past ⟨older, hpast, h, -⟩
      rw [hpast]
      exact h.1.quiet hnews

/-- The poll endpoint is named, and kept. -/
theorem Kept.offered {url : String} (h : Kept c cfg p past)
    (hnews : news c cfg e = .offered url) : Kept c cfg { p with pollURL := url } (e :: past) :=
  h.learn hnews rfl fun _ hids => absurd hids (by simp [News.decoded?])

theorem tracks_createStream {endpoint : String} (hx : x.1 = some endpoint) :
    Tracks (Justified c cfg) (KeptAt c cfg x) (fun _ p past => Kept c cfg p past ∧ p.pollURL ≠ "")
      (Kept c cfg) (createStream c cfg endpoint) := by
  refine (tracks_call (fun past tok hcontext hfresh => ⟨hfresh, ?_⟩) fun body err hbody => ?_).bind
    fun created => ?_
  · rw [← hcontext] at hx
    exact hx
  · simp only [documentNews, hbody]
  · split
    · rename_i hempty
      apply tracks_throw
      rintro p past ⟨older, body, e, hpast, hnews, hbody, h⟩
      rw [hpast]
      apply h.1.quiet
      rw [hnews]
      simp [documentNews, hbody, hempty]
    · rename_i hurl
      apply tracks_modify
      rintro p past ⟨older, body, e, hpast, hnews, hbody, h⟩
      rw [hpast]
      refine ⟨h.1.offered ?_, hurl⟩
      rw [hnews]
      simp [documentNews, hbody, hurl]

theorem tracks_setup :
    Tracks (Justified c cfg) (Kept c cfg) (fun _ p past => Kept c cfg p past ∧ p.pollURL ≠ "")
      (Kept c cfg) (setup c cfg) := by
  refine (tracks_document (Or.inl rfl) fun p past h => ⟨h, Or.inl rfl⟩).bind fun endpoint => ?_
  split
  · apply tracks_throw
    rintro p past ⟨older, body, hpast, -, h⟩
    rw [hpast]
    exact h.metadata (Or.inl rfl)
  · have hnamed : ∀ p past, (∃ older body, past =
        ⟨.send ⟨"GET", cfg.issuer ++ wellKnown, .anonymous, .empty⟩, .answered 200 body⟩ :: older ∧
          c.configurationEndpoint body = .ok endpoint ∧ Kept c cfg p older) →
        ∃ x : { x : Option String × Option String × List String // x.1 = some endpoint },
          KeptAt c cfg x p past := by
      rintro p past ⟨older, body, hpast, hbody, h⟩
      refine ⟨⟨context c cfg past, ?_⟩, ?_, rfl⟩
      · rw [hpast]
        refine configured_cons.trans ?_
        simp [news, exchangeNews, answerNews, metadataNews, hbody, News.configured?]
      · rw [hpast]
        exact h.metadata (Or.inl rfl)
    refine Tracks.of_imp (Tracks.of_exists fun x => ?_) hnamed
    refine (tracks_call (fun past tok hcontext hfresh => ⟨hfresh, ?_⟩)
      fun body err hbody => ?_).bind fun raw => ?_
    · have hx := x.2
      rw [← hcontext] at hx
      exact hx
    · simp only [documentNews, hbody]
    · split
      · rename_i stream hfound
        apply tracks_modify
        rintro p past ⟨older, body, e, hpast, hnews, hbody, h⟩
        rw [hpast]
        refine ⟨h.1.offered ?_, ?_⟩
        · rw [hnews]
          simp only [documentNews, hbody, hfound]
        · have hurl := List.find?_some hfound
          simp only [decide_eq_true_eq] at hurl
          exact hurl.2
      · rename_i hnone
        refine (tracks_createStream x.2).of_imp ?_
        rintro p past ⟨older, body, e, hpast, hnews, hbody, h⟩
        rw [hpast]
        apply h.quiet
        rw [hnews]
        simp only [documentNews, hbody, hnone]

/-- Events are received, and kept for the next acknowledgement. -/
theorem KeptAt.decoded {ids : List String} (h : KeptAt c cfg x p past)
    (hnews : news c cfg e = .decoded ids) :
    (ids = [] → Kept c cfg { p with acks := ids } (e :: past)) ∧
      (ids ≠ [] → Undelivered c cfg (e :: past) ∧
        Kept c cfg { p with acks := ids } (⟨.kick, ()⟩ :: e :: past)) := by
  have hknows : Knows c cfg { p with acks := ids } (e :: past) := by
    have hlearned := h.1.toKnows.learn (e := e) (by simp [hnews, News.granted?])
    rw [hnews] at hlearned
    exact hlearned
  constructor
  · intro hids
    refine ⟨hknows, ?_⟩
    simp [undelivered_cons, hnews, News.decoded?, hids]
  · intro hids
    refine ⟨⟨ids, hids, by simp [hnews, News.decoded?]⟩, ?_, fun ⟨_, _, hids⟩ => nomatch hids⟩
    exact hknows.learn (e := ⟨.kick, ()⟩) rfl

theorem tracks_poll :
    Tracks (Justified c cfg) (fun p past => Kept c cfg p past ∧ p.pollURL ≠ "")
      (fun _ => Kept c cfg) (Kept c cfg) (poll c cfg) := by
  apply tracks_get
  intro p
  have hknown : ∀ p' past, p' = p ∧ Kept c cfg p' past ∧ p'.pollURL ≠ "" →
      ∃ x : { x : Option String × Option String × List String //
        x.2.1 = some p.pollURL ∧ x.2.2 = p.acks }, KeptAt c cfg x p' past := by
    rintro p' past ⟨hp, hkept, hurl⟩
    rw [← hp]
    exact ⟨⟨context c cfg past, hkept.pollURL hurl, hkept.acks⟩, hkept, rfl⟩
  refine Tracks.of_imp (Tracks.of_exists fun x => ?_) hknown
  refine (tracks_call (fun past tok hcontext hfresh => ⟨hfresh, ?_⟩)
    fun body err hbody => ?_).bind fun ids => ?_
  · obtain ⟨hurl, hacks⟩ := x.2
    rw [← hcontext] at hurl hacks
    exact ⟨hurl, hacks.symm⟩
  · simp only [documentNews, hbody]
  · have hkeep : Tracks (Justified c cfg)
        (fun p' past => ∃ older body e, past = e :: older ∧
          news c cfg e = documentNews c (.poll p.acks) body ∧ c.sets body = .ok ids ∧
          KeptAt c cfg x p' older)
        (fun _ p' past => (ids = [] → Kept c cfg p' past) ∧
          (ids ≠ [] → Undelivered c cfg past ∧ Kept c cfg p' (⟨.kick, ()⟩ :: past)))
        (Kept c cfg) (modify fun p' => { p' with acks := ids } : Poll Body Unit) := by
      apply tracks_modify
      rintro p' past ⟨older, body, e, hpast, hnews, hbody, h⟩
      rw [hpast]
      apply h.decoded
      rw [hnews]
      simp only [documentNews, hbody]
    refine hkeep.bind fun _ => ?_
    split
    · rename_i hids
      exact tracks_perform (fun p' past h => (h.2 hids).1) fun _ p' past h => (h.2 hids).2
    · rename_i hids
      exact tracks_pure fun p' past h => h.1 (not_not.mp hids)

theorem tracks_once :
    Tracks (Justified c cfg) (Kept c cfg) (fun _ => Kept c cfg) (Kept c cfg) (once c cfg) := by
  apply tracks_get
  intro p
  split
  · exact (tracks_setup.of_imp fun _ _ h => h.2).bind fun _ => tracks_poll
  · rename_i hurl
    refine tracks_poll.of_imp fun p' past ⟨hp, h⟩ => ⟨h, ?_⟩
    rw [hp]
    exact hurl

theorem tracks_session (forgets : List Bool) :
    Tracks (Justified c cfg) (Kept c cfg) (fun _ => Kept c cfg) (Kept c cfg)
      (session c cfg forgets) := by
  induction forgets with
  | nil => exact tracks_pure fun _ _ h => h
  | cons forget rest ih =>
      refine (tracks_once.recover (fun _ _ _ h => h) fun p past h => ?_).bind fun _ => ih
      split
      · exact ⟨⟨h.ungranted, h.token, h.tokenURL, fun hsome => absurd rfl hsome, h.acks⟩, h.idle⟩
      · exact h

end Walk

end Claimward.Ssfpoll
