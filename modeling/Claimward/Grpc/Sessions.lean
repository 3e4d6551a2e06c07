import Claimward.Grpc.Watch
import Claimward.Library.CheckThenAct
import Claimward.Tenant.Membership

/-!
# Streams and the sessions they belong to

`Watch` looks at the entry of the key and at the membership once, when it opens,
and then sends every route set that its channel brings. So it sends to people
whose session has ended since. It sends within the session only if nothing ends
the session of a stream while the stream may still send.
-/

namespace Claimward.Grpc

open AtomicProgram AtomicProgram.Program Runs
open Api (Claims Response Server Oracle Handler Call Config)

/-- The entry of the stream's key is still one of the stream's owner and tenant. -/
def EntryLasts (s : StreamID) (server : Server) : Prop :=
  ∃ p, server.store.get s.key = some p ∧ p.subject = s.claims.subject ∧ p.tenant = s.tenant

/-- The stream's owner is still a member of the stream's tenant. -/
def MemberLasts [GoText.CaseTables] (s : StreamID) (server : Server) : Prop :=
  server.tenants.isMember s.tenant s.claims.tenancy = some true

/-- What is sent on which stream by the action. -/
def Action.sent : Action → Option (StreamID × RouteSet)
  | .send s set => some (s, set)
  | _ => none

/-- Every set that is sent is sent while the session lasts. -/
def SendsInSession [GoText.CaseTables] (c : Streams) : StreamTurn → Prop
  | .start _ _ _ => True
  | .advance i => ∀ a s set, c.nextAction i = some a → a.sent = some (s, set) →
      EntryLasts s c.shared.server ∧ MemberLasts s c.shared.server

/-- The action sends on the stream. -/
def SendsOn (s : StreamID) (a : Action) : Prop := ∃ set, a.sent = some (s, set)

def Action.ReadsEntry (a : Action) : Prop := ∃ k, a = .api (.storeGet k)

def Action.AsksMember (a : Action) : Prop := ∃ id m, a = .api (.isMember id m)

/-- The entry that was read is one of the stream's owner and tenant. -/
def ReadFor (s : StreamID) : (a : Action) → Reply a → Prop
  | .api (.storeGet k), r =>
      ∃ p : Peer, r = some p ∧ k = s.key ∧ p.subject = s.claims.subject ∧ p.tenant = s.tenant
  | _, _ => False

/-- The stream's owner was found a member of the stream's tenant. -/
def FoundMember (s : StreamID) : (a : Action) → Reply a → Prop
  | .api (.isMember id m), r => r = some true ∧ id = s.tenant ∧ m = s.claims.tenancy
  | _, _ => False

/-- The action takes the entry away from the stream's owner or tenant. -/
def EndsEntry (s : StreamID) : Api.Action → Prop
  | .storeDelete k => k = s.key
  | .storePut e => e.publicKey = s.key ∧ (e.subject ≠ s.claims.subject ∨ e.tenant ≠ s.tenant)
  | _ => False

/-- The action changes the tenants so that the stream's owner is not a member. -/
def EndsMembership [GoText.CaseTables] (s : StreamID) (server : Server) : Api.Action → Prop
  | .createTenant t =>
      (server.tenants.create t).2.isMember s.tenant s.claims.tenancy ≠ some true
  | .updateTenant id inp =>
      (server.tenants.update id inp).2.isMember s.tenant s.claims.tenancy ≠ some true
  | .deleteTenant id =>
      (server.tenants.delete id).2.isMember s.tenant s.claims.tenancy ≠ some true
  | _ => False

/-- No action ends the session of a stream that may still send: not its entry
once that has been read, nor its membership once that has been asked for. -/
def KeepsSessions [GoText.CaseTables] (c : Streams) : StreamTurn → Prop
  | .start _ _ _ => True
  | .advance i => ∀ a, c.nextAction i = some (.api a) →
      ∀ j p ω s, c.thread j = some (p, ω) →
        (p.MayBefore Action.ReadsEntry (SendsOn s) → ¬ EndsEntry s a) ∧
          (p.MayBefore Action.AsksMember (SendsOn s) → ¬ EndsMembership s c.shared.server a)

section Programs

variable {check : Action → Prop} {allows : (a : Action) → Reply a → Prop} {s s' : StreamID}
  {sub : Subscription}

theorem not_mayBefore_lift (p : Handler Response) : ¬ (lift p).MayBefore check (SendsOn s) := by
  induction p with
  | ret r => exact id
  | act a next ih =>
      rintro (⟨set, hsent⟩ | ⟨-, r, h⟩)
      · exact absurd hsent (by simp [Action.sent])
      · exact ih r h

theorem checked_lift (p : Handler Response) : (lift p).Checked check (SendsOn s) allows := by
  induction p with
  | ret r => trivial
  | act a next ih => exact fun r => ⟨fun _ h => absurd h (not_mayBefore_lift (next r)), ih r⟩

theorem not_mayBefore_leave {e : WatchEnd} :
    ¬ (leave s sub e).MayBefore check (SendsOn s') := by
  rintro (⟨set, hsent⟩ | ⟨-, r, h⟩)
  · exact absurd hsent (by simp [Action.sent])
  · exact h

/-- The loop sends on its stream alone. -/
theorem eq_of_mayBefore_watchLoop {n : ℕ}
    (h : (watchLoop s sub n).MayBefore check (SendsOn s')) : s' = s := by
  induction n with
  | zero => exact h.elim
  | succ n ih =>
      rcases h with ⟨set, hsent⟩ | ⟨-, r, h⟩
      · exact absurd hsent (by simp [Action.sent])
      · cases r with
        | done => exact absurd h not_mayBefore_leave
        | closed => exact absurd h not_mayBefore_leave
        | waiting => exact ih h
        | received set =>
            rcases h with ⟨set', hsent⟩ | ⟨-, ok, h⟩
            · simp only [Action.sent, Option.some.injEq, Prod.mk.injEq] at hsent
              exact hsent.1.symm
            · cases ok with
              | true => exact ih h
              | false => exact absurd h not_mayBefore_leave

theorem eq_of_mayBefore_stream {n : ℕ} (h : (stream s sub n).MayBefore check (SendsOn s')) :
    s' = s := by
  rcases h with ⟨set, hsent⟩ | ⟨-, ok, h⟩
  · simp only [Action.sent, Option.some.injEq, Prod.mk.injEq] at hsent
    exact hsent.1.symm
  · cases ok with
    | true => exact eq_of_mayBefore_watchLoop h
    | false => exact absurd h not_mayBefore_leave

section Checked

variable (hcheck : ∀ a, check a → ∃ a', a = .api a')

include hcheck

/-- Where only actions of the API are checks, the others need no reason. -/
theorem not_check {a : Action} {P : Prop} (ha : ∀ a', a ≠ .api a') : check a → P := by
  intro h
  obtain ⟨a', rfl⟩ := hcheck a h
  exact absurd rfl (ha a')

theorem checked_leave (e : WatchEnd) : (leave s sub e).Checked check (SendsOn s') allows :=
  fun _ => ⟨not_check hcheck (by simp), trivial⟩

theorem checked_watchLoop (n : ℕ) : (watchLoop s sub n).Checked check (SendsOn s') allows := by
  induction n with
  | zero => trivial
  | succ n ih =>
      intro r
      refine ⟨not_check hcheck (by simp), ?_⟩
      cases r with
      | done => exact checked_leave hcheck _
      | closed => exact checked_leave hcheck _
      | waiting => exact ih
      | received set =>
          intro ok
          refine ⟨not_check hcheck (by simp), ?_⟩
          cases ok with
          | true => exact ih
          | false => exact checked_leave hcheck _

theorem checked_stream (n : ℕ) : (stream s sub n).Checked check (SendsOn s') allows := by
  intro ok
  refine ⟨not_check hcheck (by simp), ?_⟩
  cases ok with
  | true => exact checked_watchLoop hcheck n
  | false => exact checked_leave hcheck _

end Checked

theorem mayBefore_afterMember {n : ℕ} {member : Option Bool}
    (h : (afterMember (fun s sub => stream s sub n) s member).MayBefore check (SendsOn s')) :
    member = some true ∧ s' = s := by
  match member with
  | none => exact h.elim
  | some false => exact h.elim
  | some true =>
      rcases h with ⟨set, hsent⟩ | ⟨-, sub, h⟩
      · exact absurd hsent (by simp [Action.sent])
      · cases sub with
        | none => exact h.elim
        | some sub => exact ⟨rfl, eq_of_mayBefore_stream h⟩

/-- Having read the entry, `Watch` sends on the stream of that entry alone. -/
theorem eq_of_mayBefore_afterEntry {n : ℕ}
    (h : (afterEntry (fun s sub => stream s sub n) s).MayBefore check (SendsOn s')) : s' = s := by
  rcases h with ⟨set, hsent⟩ | ⟨-, t, h⟩
  · exact absurd hsent (by simp [Action.sent])
  · cases t with
    | none => exact h.elim
    | some t =>
        rcases h with ⟨set, hsent⟩ | ⟨-, member, h⟩
        · exact absurd hsent (by simp [Action.sent])
        · exact (mayBefore_afterMember h).2

/-- Before it asks for the membership, `Watch` sends nothing. -/
theorem not_mayBefore_afterEntry {n : ℕ} :
    ¬ (afterEntry (fun s sub => stream s sub n) s).MayBefore Action.AsksMember (SendsOn s') := by
  rintro (⟨set, hsent⟩ | ⟨-, t, h⟩)
  · exact absurd hsent (by simp [Action.sent])
  · cases t with
    | none => exact h
    | some t =>
        rcases h with ⟨set, hsent⟩ | ⟨hasks, -⟩
        · exact absurd hsent (by simp [Action.sent])
        · exact hasks ⟨_, _, rfl⟩

variable {claims : Option Claims} {key : String} {n : ℕ}

/-- Before it reads the entry, and before it asks for the membership, `Watch`
sends nothing. -/
theorem not_mayBefore_watch :
    ¬ (watch claims key n).MayBefore Action.ReadsEntry (SendsOn s) ∧
      ¬ (watch claims key n).MayBefore Action.AsksMember (SendsOn s) := by
  cases claims with
  | none => exact ⟨id, id⟩
  | some claims =>
      rw [watch_eq_bind, openStream_bind]
      constructor
      · rintro (⟨set, hsent⟩ | ⟨hread, -⟩)
        · exact absurd hsent (by simp [Action.sent])
        · exact hread ⟨_, rfl⟩
      · rintro (⟨set, hsent⟩ | ⟨-, r, h⟩)
        · exact absurd hsent (by simp [Action.sent])
        · cases r with
          | none => exact h
          | some p =>
              dsimp only at h
              split at h
              · exact h
              · exact not_mayBefore_afterEntry h

/-- `Watch` sends on a stream after a check only if the reply was the one it
needs for that stream. -/
theorem checked_watch (hcheck : ∀ a, check a → ∃ a', a = .api a')
    (hentry : ∀ k p, check (.api (.storeGet k)) → k = s.key →
      p.subject = s.claims.subject → p.tenant = s.tenant → allows (.api (.storeGet k)) (some p))
    (hmember : check (.api (.isMember s.tenant s.claims.tenancy)) →
      allows (.api (.isMember s.tenant s.claims.tenancy)) (some true)) :
    (watch claims key n).Checked check (SendsOn s) allows := by
  cases claims with
  | none => trivial
  | some claims =>
      rw [watch_eq_bind, openStream_bind]
      intro r
      cases r with
      | none => exact ⟨fun _ h => h.elim, trivial⟩
      | some p =>
          dsimp only
          split
          · exact ⟨fun _ h => h.elim, trivial⟩
          · rename_i hown
            refine ⟨?_, ?_⟩
            · intro hc h
              obtain rfl := eq_of_mayBefore_afterEntry h
              exact hentry key p hc rfl (not_not.mp hown) rfl
            · intro t
              refine ⟨not_check hcheck (by simp), ?_⟩
              cases t with
              | none => trivial
              | some t =>
                  intro member
                  refine ⟨?_, ?_⟩
                  · intro hc h
                    obtain ⟨rfl, rfl⟩ := mayBefore_afterMember h
                    exact hmember hc
                  · match member with
                    | none => trivial
                    | some false => trivial
                    | some true =>
                        intro sub
                        refine ⟨not_check hcheck (by simp), ?_⟩
                        cases sub with
                        | none => trivial
                        | some sub => exact checked_stream hcheck n

end Programs

section Runs

variable [GoText.CaseTables] {s : StreamID} {server : Server} {a : Api.Action} {ω : Oracle}

theorem EntryLasts.exec (h : EntryLasts s server) (ha : ¬ EndsEntry s a) :
    EntryLasts s (Api.exec a ω server).2.2 := by
  obtain ⟨p, hget, hsubject, htenant⟩ := h
  cases a with
  | storePut e =>
      by_cases hkey : s.key = e.publicKey
      · refine ⟨e, Store.get_put_eq_some.mpr (Or.inl ⟨hkey, rfl⟩), ?_⟩
        constructor
        · by_contra hne
          exact ha ⟨hkey.symm, Or.inl hne⟩
        · by_contra hne
          exact ha ⟨hkey.symm, Or.inr hne⟩
      · exact ⟨p, Store.get_put_eq_some.mpr (Or.inr ⟨hkey, hget⟩), hsubject, htenant⟩
  | storeDelete k =>
      have hkey : s.key ≠ k := fun heq => ha heq.symm
      refine ⟨p, ?_, hsubject, htenant⟩
      simp only [Api.exec, Store.get_delete, if_neg hkey, hget]
  | storeRenew k t =>
      obtain ⟨t', ht⟩ := Store.get_renew_of_get hget
      exact ⟨_, ht, hsubject, htenant⟩
  | _ =>
      refine ⟨p, ?_, hsubject, htenant⟩
      rw [Api.store_exec ω server id]
      exact hget

theorem MemberLasts.exec (h : MemberLasts s server) (ha : ¬ EndsMembership s server a) :
    MemberLasts s (Api.exec a ω server).2.2 := by
  unfold MemberLasts
  cases a with
  | createTenant t =>
      simp only [EndsMembership, not_not] at ha
      simp only [Api.exec, ha]
  | updateTenant id inp =>
      simp only [EndsMembership, not_not] at ha
      simp only [Api.exec, ha]
  | deleteTenant id =>
      simp only [EndsMembership, not_not] at ha
      simp only [Api.exec, ha]
  | _ =>
      rw [Api.tenants_exec ω server id]
      exact h

/-- What an action that keeps the session of a stream leaves of it. -/
theorem lasts_exec {a : Action} {ω : StreamOracle} {g : Gateway} :
    (EntryLasts s g.server → (∀ a', a = .api a' → ¬ EndsEntry s a') →
      EntryLasts s (exec a ω g).2.2.server) ∧
    (MemberLasts s g.server → (∀ a', a = .api a' → ¬ EndsMembership s g.server a') →
      MemberLasts s (exec a ω g).2.2.server) := by
  rcases server_exec (a := a) (ω := ω) (g := g) with heq | ⟨a', rfl, heq⟩
  · rw [heq]
    exact ⟨fun h _ => h, fun h _ => h⟩
  · rw [heq]
    exact ⟨fun h ha => h.exec (ha a' rfl), fun h ha => h.exec (ha a' rfl)⟩

/-- Every stream has read the entry and asked for the membership that it relies
on, and both still hold. -/
def SessionsVouched (s : StreamID) (c : Streams) : Prop :=
  c.AllVouched Action.ReadsEntry (SendsOn s) (ReadFor s) (fun g => EntryLasts s g.server) ∧
    c.AllVouched Action.AsksMember (SendsOn s) (FoundMember s) (fun g => MemberLasts s g.server)

theorem SessionsVouched.move {cfg : Config} {c : Streams} {m : StreamTurn}
    (h : SessionsVouched s c) (hstarts : Starts cfg m) (hkeeps : KeepsSessions c m) :
    SessionsVouched s (c.move exec m) := by
  constructor
  · apply h.1.move
    · rintro i p ω rfl
      rcases hstarts with ⟨call, rfl⟩ | ⟨claims, key, n, rfl⟩
      · exact ⟨checked_lift _, not_mayBefore_lift _⟩
      · refine ⟨checked_watch ?_ ?_ ?_, not_mayBefore_watch.1⟩
        · rintro a ⟨k, rfl⟩
          exact ⟨_, rfl⟩
        · intro k p _ hkey hsubject htenant
          exact ⟨p, rfl, hkey, hsubject, htenant⟩
        · rintro ⟨k, heq⟩
          exact absurd heq (by simp)
    · rintro i a next ω rfl hi
      constructor
      · rintro ⟨k, rfl⟩ ⟨p, hget, rfl, hsubject, htenant⟩
        exact ⟨p, hget, hsubject, htenant⟩
      · intro j p ω' hj hp hfact
        apply lasts_exec.1 hfact
        rintro a' rfl
        exact (hkeeps a' (Pool.nextAction_eq hi) j p ω' s hj).1 hp
  · apply h.2.move
    · rintro i p ω rfl
      rcases hstarts with ⟨call, rfl⟩ | ⟨claims, key, n, rfl⟩
      · exact ⟨checked_lift _, not_mayBefore_lift _⟩
      · refine ⟨checked_watch ?_ ?_ ?_, not_mayBefore_watch.2⟩
        · rintro a ⟨id, m, rfl⟩
          exact ⟨_, rfl⟩
        · rintro k p ⟨id, m, heq⟩
          exact absurd heq (by simp)
        · intro _
          exact ⟨rfl, rfl, rfl⟩
    · rintro i a next ω rfl hi
      constructor
      · rintro ⟨id, m, rfl⟩ ⟨htrue, rfl, rfl⟩
        exact htrue
      · intro j p ω' hj hp hfact
        apply lasts_exec.2 hfact
        rintro a' rfl
        exact (hkeeps a' (Pool.nextAction_eq hi) j p ω' s hj).2 hp

/-- In every interleaving of API calls and streams in which no action ends the
session of a stream that may still send, every set is sent while the session of
its stream lasts. -/
theorem routes_sent_in_session {cfg : Config} {g : Gateway} {turns : List StreamTurn}
    (hrun : Admissible (Pool.move exec) (fun c m => Starts cfg m ∧ KeepsSessions c m)
      (.initial g : Streams) turns) :
    Admissible (Pool.move exec) SendsInSession (.initial g : Streams) turns := by
  have hinv := hrun.and_invariant (fun c => ∀ s, SessionsVouched s c)
    (fun c m h hok s => (h s).move hok.1 hok.2)
    (fun s => ⟨Pool.allVouched_initial g, Pool.allVouched_initial g⟩)
  refine hinv.mono ?_
  rintro c m ⟨h, -⟩
  cases m with
  | start i p ω => trivial
  | advance i =>
      intro a s set hnext hsent
      exact ⟨(h s).1.fact_of_target hnext ⟨set, hsent⟩, (h s).2.fact_of_target hnext ⟨set, hsent⟩⟩

/-- The turn is one of the actions that cannot end a session. An `Update` cannot
if it leaves the lists of who belongs as they are. -/
def EndsNothing (c : Streams) : StreamTurn → Bool
  | .start _ _ _ => true
  | .advance i =>
      match c.nextAction i with
      | some (.api (.storePut _)) => false
      | some (.api (.storeDelete _)) => false
      | some (.api (.createTenant _)) => false
      | some (.api (.updateTenant id inp)) =>
          (c.shared.server.tenants.tenants.lookup id).any fun t => inp.SameLists t
      | some (.api (.deleteTenant _)) => false
      | _ => true

theorem keepsSessions_of_endsNothing {c : Streams} {m : StreamTurn}
    (hvouched : ∀ s, SessionsVouched s c) (h : EndsNothing c m = true) : KeepsSessions c m := by
  cases m with
  | start i p ω => trivial
  | advance i =>
      intro a ha j p ω s hj
      rw [EndsNothing, ha] at h
      cases a with
      | storePut e => exact absurd h (by simp)
      | storeDelete k => exact absurd h (by simp)
      | createTenant t => exact absurd h (by simp)
      | updateTenant id inp =>
          obtain ⟨t, ht, hlists⟩ := (Option.any_eq_true _ _).mp h
          refine ⟨fun _ => not_false, fun hp hends => hends ?_⟩
          have hmember : MemberLasts s c.shared.server := ((hvouched s).2 j p ω hj).holds hp
          exact TenantStore.isMember_update ht (of_decide_eq_true hlists) hmember
      | deleteTenant id => exact absurd h (by simp)
      | _ => exact ⟨fun _ => id, fun _ => id⟩

theorem keepsSessions_run {cfg : Config} {g : Gateway} {turns : List StreamTurn}
    (hstarts : ∀ m ∈ turns, Starts cfg m)
    (h : Admissible (Pool.move exec) (fun c m => EndsNothing c m = true) (.initial g : Streams)
      turns) :
    Admissible (Pool.move exec) (fun c m => Starts cfg m ∧ KeepsSessions c m)
      (.initial g : Streams) turns := by
  have hinv := (h.and_forall hstarts).and_invariant (fun c => ∀ s, SessionsVouched s c)
    (fun c m hvouched hok s => (hvouched s).move hok.1
      (keepsSessions_of_endsNothing hvouched hok.2))
    (fun s => ⟨Pool.allVouched_initial g, Pool.allVouched_initial g⟩)
  refine hinv.mono ?_
  rintro c m ⟨hvouched, hm, hends⟩
  exact ⟨hm, keepsSessions_of_endsNothing hvouched hends⟩

end Runs

attribute [local instance] GoText.asciiTables

namespace Sample

open Api.Sample (claims key₁)

/-- Alice's stream is opened, and the current set sent. -/
def openedStream : List StreamTurn :=
  .start 0 (watch (some (claims "alice")) key₁ 5) oracle :: List.replicate 5 (.advance 0)

/-- The default tenant is then given other routes, and the stream takes them and
sends them. -/
def updatedStream : List StreamTurn :=
  openedStream ++ request 1 (.updateTenant defaultID moved) 1 ++ List.replicate 2 (.advance 0)

theorem starts_updatedStream : ∀ m ∈ updatedStream, Starts (Api.Sample.config false) m := by
  simp only [updatedStream, openedStream, request, List.forall_mem_append, List.forall_mem_cons,
    List.mem_replicate]
  refine ⟨⟨⟨Or.inr ⟨_, _, _, rfl⟩, ?_⟩, Or.inl ⟨_, rfl⟩, ?_⟩, ?_⟩
  · rintro m ⟨-, rfl⟩
    trivial
  · rintro m ⟨-, rfl⟩
    trivial
  · rintro m ⟨-, rfl⟩
    trivial

end Sample

/-- The set after the update is sent too, and both are sent within the session. -/
theorem updated_set_sent_in_session :
    Admissible (Pool.move exec) SendsInSession (.initial Sample.enrolled) Sample.updatedStream ∧
      ((run (Pool.move exec) (.initial Sample.enrolled)
        Sample.updatedStream.dropLast).nextAction 0).bind Action.sent =
        some (⟨Api.Sample.claims "alice", Api.Sample.key₁, defaultID⟩,
          ⟨["10.99.0.0/16"], [], 2⟩) := by
  constructor
  · exact routes_sent_in_session (keepsSessions_run Sample.starts_updatedStream (by decide +kernel))
  · decide +kernel

/-- Alice leaves, and the default tenant is updated. The stream gets the update
in its channel and sends it to alice. -/
theorem routes_sent_after_deregistration :
    let c := run (Pool.move exec) (.initial Sample.enrolled)
      (Sample.openedStream ++ Sample.request 1 (Api.Sample.deregister "alice" Api.Sample.key₁) 4 ++
        Sample.request 2 (.updateTenant defaultID Sample.moved) 1 ++ [.advance 0])
    (c.nextAction 0).bind Action.sent =
        some (⟨Api.Sample.claims "alice", Api.Sample.key₁, defaultID⟩, ⟨["10.99.0.0/16"], [], 2⟩) ∧
      c.shared.server.store.get Api.Sample.key₁ = none := by
  decide +kernel

end Claimward.Grpc
