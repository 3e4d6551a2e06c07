import Claimward.Grpc.Watch
import Claimward.Library.Observer
import Claimward.Tenant.Cleanup

/-!
# What a stream has sent

A stream sends the route set it starts from and then what it takes from its
channel. Nobody else takes from that channel, so what the stream has sent is what
the channel's reader has seen. With the invariant of the watchers it follows that
a stream with nothing to take has sent the tenant's current route set last.
-/

namespace Claimward

open Runs

namespace Hub

variable {h h' : Hub}

/-- Nobody but its reader takes from a channel. -/
def SeenKept (h h' : Hub) : Prop :=
  h.made ≤ h'.made ∧ ∀ c < h.made, (h'.box c).seen = (h.box c).seen

theorem SeenKept.refl (h : Hub) : SeenKept h h := ⟨le_rfl, fun _ _ => rfl⟩

theorem SeenKept.trans {h₁ h₂ h₃ : Hub} (h₁₂ : SeenKept h₁ h₂) (h₂₃ : SeenKept h₂ h₃) :
    SeenKept h₁ h₃ := by
  refine ⟨h₁₂.1.trans h₂₃.1, fun c hc => ?_⟩
  rw [h₂₃.2 c (hc.trans_le h₁₂.1), h₁₂.2 c hc]

/-- One channel is written, and its reader's side left alone. -/
theorem seenKept_update {c : ℕ} {m : Mailbox RouteSet} (hmade : h'.made = h.made)
    (hbox : h'.box = Function.update h.box c m) (hm : m.seen = (h.box c).seen) :
    SeenKept h h' := by
  refine ⟨hmade.ge, fun c' _ => ?_⟩
  rw [hbox]
  by_cases hc : c' = c
  · rw [hc, Function.update_self, hm]
  · rw [Function.update_of_ne hc]

theorem seenKept_onChannel {h₁ : Hub} {c : ℕ}
    {f : Mailbox RouteSet → Except Mailbox.Misuse (Mailbox RouteSet)}
    (hstep : h₁.onChannel c f = .ok h') (hf : ∀ m m', f m = .ok m' → m'.seen = m.seen)
    (hmade : h₁.made = h.made) (hbox : h₁.box = h.box) : SeenKept h h' := by
  unfold onChannel at hstep
  split at hstep
  · rename_i m hm
    rw [← Except.ok.inj hstep]
    apply seenKept_update (c := c) (m := m)
    · exact hmade
    · simp only [hbox]
    · rw [hf _ _ hm, hbox]
  · exact absurd hstep (by simp)

theorem seen_close {m m' : Mailbox RouteSet} (h : m.close = .ok m') : m'.seen = m.seen := by
  unfold Mailbox.close at h
  split at h
  · exact absurd h (by simp)
  · rw [← Except.ok.inj h]

theorem seen_send {m m' : Mailbox RouteSet} {set : RouteSet} (h : m.send set = .ok m') :
    m'.seen = m.seen := by
  unfold Mailbox.send at h
  split at h
  · exact absurd h (by simp)
  · split at h
    · exact absurd h (by simp)
    · rw [← Except.ok.inj h]

theorem seenKept_work {c : ℕ} (hwork : h.work c = .ok h') : SeenKept h h' := by
  unfold Hub.work at hwork
  split at hwork
  · rw [← Except.ok.inj hwork]
    exact .refl h
  · exact seenKept_onChannel hwork (fun _ _ => seen_send) rfl rfl
  · rw [← Except.ok.inj hwork]
    exact ⟨le_rfl, fun _ _ => rfl⟩
  · split at hwork
    · rw [← Except.ok.inj hwork]
      exact seenKept_update rfl rfl rfl
    · rw [← Except.ok.inj hwork]
      exact .refl h
  · rw [← Except.ok.inj hwork]
    exact ⟨le_rfl, fun _ _ => rfl⟩
  · split at hwork
    · exact seenKept_onChannel hwork (fun _ _ => seen_close) rfl rfl
    · rw [← Except.ok.inj hwork]
      exact .refl h

variable [GoText.CaseTables]

theorem seenKept_call {call : HubCall} (hcall : h.call call = .ok h') : SeenKept h h' := by
  cases call with
  | create t =>
      rw [← Except.ok.inj hcall]
      unfold Hub.create
      split
      · exact ⟨le_rfl, fun _ _ => rfl⟩
      · exact .refl h
  | update id inp =>
      rw [← Except.ok.inj hcall]
      unfold Hub.update
      split
      · exact ⟨le_rfl, fun _ _ => rfl⟩
      · exact .refl h
  | delete id =>
      rw [← Except.ok.inj hcall]
      unfold Hub.delete
      split
      · exact .refl h
      · split
        · exact .refl h
        · exact ⟨le_rfl, fun _ _ => rfl⟩
  | subscribe tenantID =>
      change h.subscribe tenantID = .ok h' at hcall
      unfold Hub.subscribe at hcall
      split at hcall
      · exact absurd hcall (by simp)
      · rw [← Except.ok.inj hcall]
        refine ⟨Nat.le_succ _, fun c hc => ?_⟩
        simp only [Function.update_of_ne hc.ne]
  | unsubscribe tenantID n =>
      change h.unsubscribe tenantID n = .ok h' at hcall
      unfold Hub.unsubscribe at hcall
      split at hcall
      · exact absurd hcall (by simp)
      · split at hcall
        · rw [← Except.ok.inj hcall]
          exact .refl h
        · exact seenKept_onChannel hcall (fun _ _ => seen_close) rfl rfl

theorem seenKept_works {works : List HubLabel} (hworks : ∀ l ∈ works, ∃ c, l = .work c)
    (hrun : h.run works = .ok h') : SeenKept h h' := by
  induction works generalizing h with
  | nil =>
      rw [← Except.ok.inj hrun]
      exact .refl h
  | cons l works ih =>
      obtain ⟨⟨c, rfl⟩, hrest⟩ := List.forall_mem_cons.mp hworks
      cases hwork : h.step (.work c) with
      | error fault =>
          rw [Hub.run, runFallible, List.foldlM_cons, hwork] at hrun
          exact absurd hrun (by simp [bind, Except.bind])
      | ok h₁ =>
          rw [Hub.run, runFallible_cons hwork] at hrun
          exact (seenKept_work hwork).trans (ih hrest hrun)

/-- A whole call takes from no channel. -/
theorem seenKept_atomically {call : HubCall} (hstep : h.atomically call = .ok h') :
    SeenKept h h' := by
  cases hcall : h.call call with
  | error fault => exact absurd hstep (by simp [atomically, hcall, bind, Except.bind])
  | ok h₁ =>
      rw [atomically_eq hcall] at hstep
      refine (seenKept_call hcall).trans (seenKept_works ?_ hstep)
      intro l hl
      unfold Pending.works at hl
      split at hl
      · exact absurd hl List.not_mem_nil
      · simp only [List.mem_append, List.mem_flatMap, List.mem_cons, List.not_mem_nil,
          or_false, or_self] at hl
        rcases hl with ⟨c, -, rfl⟩ | rfl
        · exact ⟨c, rfl⟩
        · exact ⟨0, rfl⟩
      · simp only [List.mem_append, List.mem_map, List.mem_cons, List.not_mem_nil,
          or_false] at hl
        rcases hl with ⟨c, -, rfl⟩ | rfl
        · exact ⟨c, rfl⟩
        · exact ⟨0, rfl⟩

end Hub

namespace Grpc

open AtomicProgram AtomicProgram.Program
open Api (Claims Response Server Oracle Handler Call Config)

/-- The set that an action has sent, if it has sent one. -/
def sentSet : Happening interface → Option RouteSet
  | ⟨.send _ set, true⟩ => some set
  | _ => none

/-- What a thread has sent, the latest first. -/
def sentSets (past : List (Happening interface)) : List RouteSet := past.filterMap sentSet

/-- The thread was given this subscription for the tenant. -/
def Joined (past : List (Happening interface)) (tenantID : String) (sub : Subscription) : Prop :=
  ⟨.subscribe tenantID, some sub⟩ ∈ past

/-- The program takes from no channel before it is a stream that subscribed. -/
def Opening : Program interface Answer → Prop
  | .ret _ => True
  | .act (.subscribe id) next =>
      (∃ v, next none = .ret v) ∧ ∀ sub, ∃ s n, s.tenant = id ∧ next (some sub) = stream s sub n
  | .act (.select _) _ => False
  | .act (.send _ _) _ => False
  | .act _ next => ∀ r, Opening (next r)

/-- The program only ends its subscription. -/
def Leaving : Program interface Answer → Prop
  | .ret _ => True
  | .act (.unsubscribe _ _) next => Leaving (next ())
  | _ => False

/-- The stream has sent these sets, and these have been taken from its channel. -/
inductive Following (s : StreamID) (sub : Subscription) :
    Program interface Answer → List RouteSet → List RouteSet → Prop
  | loop (n : ℕ) (sets : List RouteSet) : Following s sub (watchLoop s sub n) sets sets
  | sending (n : ℕ) (set : RouteSet) (sets : List RouteSet)
      (next : Bool → Program interface Answer) (htrue : next true = watchLoop s sub n)
      (hfalse : Leaving (next false)) :
      Following s sub (.act (.send s set) next) sets (set :: sets)

section Programs

theorem opening_lift (p : Handler Response) : Opening (lift p) := by
  induction p with
  | ret r => trivial
  | act a next ih => exact fun r => ih r

theorem opening_watch (claims : Option Claims) (key : String) (n : ℕ) :
    Opening (watch claims key n) := by
  rw [watch_eq_bind]
  cases claims with
  | none => trivial
  | some claims =>
      rw [openStream_bind]
      intro entry
      cases entry with
      | none => trivial
      | some p =>
          change Opening (if p.subject ≠ claims.subject then _ else _)
          split
          · trivial
          · intro t
            cases t with
            | none => trivial
            | some t =>
                intro member
                match member with
                | none => trivial
                | some false => trivial
                | some true => exact ⟨⟨_, rfl⟩, fun sub => ⟨_, n, rfl, rfl⟩⟩

theorem following_stream (s : StreamID) (sub : Subscription) (n : ℕ) :
    Following s sub (stream s sub n) [] [sub.current] :=
  .sending n sub.current [] _ rfl trivial

/-- What a stream does with its `select`. -/
def taken (s : StreamID) (sub : Subscription) (n : ℕ) : Selected → Program interface Answer
  | .done => leave s sub .ok
  | .closed => leave s sub .ok
  | .waiting => watchLoop s sub n
  | .received set => do
      if ← perform (.send s set) then watchLoop s sub n
      else leave s sub .sendFailed

theorem watchLoop_succ (s : StreamID) (sub : Subscription) (n : ℕ) :
    watchLoop s sub (n + 1) = .act (.select sub.channel) (taken s sub n) := by
  refine congrArg (Program.act (I := interface) (.select sub.channel)) (funext fun answer => ?_)
  cases answer with
  | done => rfl
  | closed => rfl
  | waiting => rfl
  | received set => rfl

/-- The next action of a stream: it sends what it has taken, or takes again. -/
theorem Following.act {s : StreamID} {sub : Subscription} {a : Action}
    {next : Reply a → Program interface Answer} {sent seen : List RouteSet}
    (h : Following s sub (.act a next) sent seen) :
    (∃ (set : RouteSet) (n : ℕ) (k : Bool → Program interface Answer),
        (⟨a, next⟩ : (a : Action) × (Reply a → Program interface Answer)) = ⟨.send s set, k⟩ ∧
          seen = set :: sent ∧ k true = watchLoop s sub n ∧ Leaving (k false)) ∨
      ∃ n, (⟨a, next⟩ : (a : Action) × (Reply a → Program interface Answer)) =
          ⟨.select sub.channel, taken s sub n⟩ ∧ seen = sent := by
  generalize hp : Program.act (I := interface) a next = p at h
  cases h with
  | sending n set sets k htrue hfalse =>
      cases hp
      exact Or.inl ⟨set, n, k, rfl, rfl, htrue, hfalse⟩
  | loop n sets =>
      cases n with
      | zero => exact absurd hp (by simp [watchLoop])
      | succ n =>
          rw [watchLoop_succ] at hp
          cases hp
          exact Or.inr ⟨n, rfl, rfl⟩

end Programs

section Semantics

/-- What has happened to the watchers between two actions. -/
structure Evolves (h h' : Hub) : Prop where
  settled : h'.Settled
  made : h.made ≤ h'.made
  watched : ∀ id c, c < h.made → h'.Watches id c → h.Watches id c
  numbered : h.Numbered → h'.made ≤ 2 ^ 64 → h'.Numbered

theorem evolves_refl {h : Hub} (hs : h.Settled) : Evolves h h :=
  ⟨hs, le_rfl, fun _ _ _ hc => hc, fun hn _ => hn⟩

theorem evolves_after [GoText.CaseTables] {h : Hub} (hs : h.Settled) (call : HubCall) :
    Evolves h (after h call) ∧ h.SeenKept (after h call) ∧ h.Follows call (after h call) := by
  obtain ⟨h', hstep, hs', hf⟩ := hs.step call
  have hafter : after h call = h' := by rw [after, hstep]
  rw [hafter]
  refine ⟨⟨hs', by rw [hf.made]; exact Nat.le_add_right _ _, ?_, fun hn => hn.follows hf⟩,
    Hub.seenKept_atomically hstep, hf⟩
  rintro id c hc ⟨n, hn⟩
  rcases hf.older id n c hn with hold | ⟨_, -, -, -, rfl⟩
  · exact ⟨n, hold⟩
  · exact absurd hc (lt_irrefl _)

theorem evolves_receive {h : Hub} (hs : h.Settled) (c : ℕ) : Evolves h (h.receive c) := by
  refine ⟨⟨hs.sound.receive c, hs.free, hs.filed⟩, le_rfl, fun _ _ _ hc => hc, fun hn _ => ?_⟩
  refine ⟨hn.next, hn.numbers, fun c' hc' hun => ?_⟩
  have hclosed := hn.released c' hc' hun
  simp only [Hub.receive]
  by_cases hcc : c' = c
  · rw [hcc, Function.update_self, Mailbox.closed_receive, ← hcc]
    exact hclosed
  · rw [Function.update_of_ne hcc]
    exact hclosed

variable [GoText.CaseTables]

/-- What an action does to the watchers. It takes from no channel but the one it
selects. -/
theorem hub_exec {g : Gateway} (hs : g.hub.Settled) (a : Action) (ω : StreamOracle) :
    Evolves g.hub (exec a ω g).2.2.hub ∧
      ∀ c < g.hub.made, a ≠ .select c →
        ((exec a ω g).2.2.hub.box c).seen = (g.hub.box c).seen := by
  have hafter : ∀ call, Evolves g.hub (after g.hub call) ∧ ∀ c < g.hub.made, a ≠ .select c →
      ((after g.hub call).box c).seen = (g.hub.box c).seen := by
    intro call
    obtain ⟨hevolves, hseen, -⟩ := evolves_after hs call
    exact ⟨hevolves, fun c hc _ => hseen.2 c hc⟩
  cases a with
  | api a =>
      have hapi : (exec (.api a) ω g).2.2.hub = follow g.hub a := rfl
      rw [hapi]
      unfold follow
      split
      · exact hafter (.create _)
      · exact hafter (.update _ _)
      · exact hafter (.delete _)
      · exact ⟨evolves_refl hs, fun _ _ _ => rfl⟩
  | subscribe id => exact hafter (.subscribe id)
  | unsubscribe id n => exact hafter (.unsubscribe id n)
  | select c =>
      simp only [exec]
      split
      · exact ⟨evolves_refl hs, fun _ _ _ => rfl⟩
      · refine ⟨evolves_receive hs c, fun c' _ hne => ?_⟩
        have hcc : c' ≠ c := fun heq => hne (heq ▸ rfl)
        simp only [Hub.receive, Function.update_of_ne hcc]
  | tenantGet id => exact ⟨evolves_refl hs, fun _ _ _ => rfl⟩
  | send s set => exact ⟨evolves_refl hs, fun _ _ _ => rfl⟩

/-- A new subscription: its channel is new, and its reader has been told the
current set. -/
theorem subscribed_eq_some {h : Hub} (hfree : h.holder = none) {tenantID : String}
    {sub : Subscription} (hsub : subscribed h tenantID = some sub) :
    sub.channel = h.made ∧
      ((after h (.subscribe tenantID)).box sub.channel).seen = [sub.current] := by
  obtain ⟨⟨id, t⟩, hwatched, rfl⟩ := Option.map_eq_some_iff.mp hsub
  refine ⟨rfl, ?_⟩
  have hcall : h.call (.subscribe tenantID) = .ok { h with
      subs := Function.update h.subs id ((h.subs id).insert h.nextSub h.made)
      nextSub := h.nextSub + 1
      box := Function.update h.box h.made (.made t.routes)
      made := h.made + 1 } := by
    simp only [Hub.call, Hub.subscribe, hwatched]
  have hfree' : h.atomically (.subscribe tenantID) = .ok _ := Hub.atomically_of_call hcall hfree
  rw [after, hfree']
  simp only [Function.update_self]
  rfl

end Semantics

/-- Streams and calls of the API, each with a journal of what it has done. -/
abbrev Journals := Pool interface (StreamOracle × List (Happening interface)) Gateway Answer

abbrev JournalTurn := Move interface (StreamOracle × List (Happening interface)) Answer

/-- Whatever is started is a call of the API or a stream, with an empty journal. -/
def JournalStarts (cfg : Config) : JournalTurn → Prop
  | .start _ p ω =>
      ω.2 = [] ∧ ((∃ c : Call, p = lift (c.program cfg)) ∨ ∃ claims key n, p = watch claims key n)
  | .advance _ => True

/-- Where a thread is with its subscription. -/
inductive Delivers (h : Hub) (p : Program interface Answer) (past : List (Happening interface)) :
    Prop
  | opening (hp : Opening p) (hsent : sentSets past = [])
  | following (s : StreamID) (sub : Subscription) (hjoined : Joined past s.tenant sub)
      (hp : Following s sub p (sentSets past) (h.box sub.channel).seen)
  | leaving (hp : Leaving p)

/-- The journals know every subscription, and no channel is in two of them. -/
structure Delivering (c : Journals) : Prop where
  settled : c.shared.hub.Settled
  numbered : c.shared.hub.made ≤ 2 ^ 64 → c.shared.hub.Numbered
  threads : ∀ i p ω past, c.thread i = some (p, ω, past) → Delivers c.shared.hub p past
  given : ∀ i p ω past tenantID sub, c.thread i = some (p, ω, past) → Joined past tenantID sub →
    sub.channel < c.shared.hub.made ∧
      ∀ id, c.shared.hub.Watches id sub.channel → id = tenantID ∨ id = defaultID
  apart : ∀ i j p q ω ω' past past' tenantID tenantID' sub sub', i ≠ j →
    c.thread i = some (p, ω, past) → c.thread j = some (q, ω', past') →
    Joined past tenantID sub → Joined past' tenantID' sub' → sub.channel ≠ sub'.channel

section Journals

variable [GoText.CaseTables] {g : Gateway} {ω : StreamOracle} {past : List (Happening interface)}
  {a : Action}

/-- A journal gains a subscription only where one is made. -/
theorem joined_cons {tenantID : String} {sub : Subscription}
    (h : Joined (⟨a, (exec a ω g).1⟩ :: past) tenantID sub) :
    Joined past tenantID sub ∨ a = .subscribe tenantID ∧ subscribed g.hub tenantID = some sub := by
  cases List.mem_cons.mp h with
  | inr hold => exact Or.inl hold
  | inl hnew =>
      obtain ⟨rfl, hreply⟩ := Sigma.mk.inj hnew
      exact Or.inr ⟨rfl, (eq_of_heq hreply).symm⟩

omit [GoText.CaseTables] in
theorem sentSets_cons (e : Happening interface) :
    sentSets (e :: past) = (sentSet e).toList ++ sentSets past := by
  cases h : sentSet e with
  | none => simp [sentSets, h]
  | some set => simp [sentSets, h]

/-- The thread whose turn it is. -/
theorem Delivers.act {next : Reply a → Program interface Answer} (hs : g.hub.Settled)
    (h : Delivers g.hub (.act a next) past) :
    Delivers (exec a ω g).2.2.hub (next (exec a ω g).1) (⟨a, (exec a ω g).1⟩ :: past) := by
  cases h with
  | leaving hp =>
      cases a with
      | unsubscribe id n => exact .leaving hp
      | _ => exact hp.elim
  | opening hp hsent =>
      cases a with
      | subscribe id =>
          have hsent' : ∀ r : Option Subscription,
              sentSets (⟨.subscribe id, r⟩ :: past) = [] := fun r => by
            rw [sentSets_cons, hsent]
            rfl
          obtain ⟨⟨v, hnone⟩, hsome⟩ := hp
          simp only [exec]
          cases hsub : subscribed g.hub id with
          | none =>
              rw [hnone]
              exact .opening trivial (hsent' none)
          | some sub =>
              obtain ⟨s, n, rfl, hstream⟩ := hsome sub
              rw [hstream]
              refine .following s sub List.mem_cons_self ?_
              rw [hsent', (subscribed_eq_some hs.free hsub).2]
              exact following_stream s sub n
      | select c => exact hp.elim
      | send s set => exact hp.elim
      | api a => exact .opening (hp _) (by rw [sentSets_cons, hsent]; rfl)
      | tenantGet id => exact .opening (hp _) (by rw [sentSets_cons, hsent]; rfl)
      | unsubscribe id n => exact .opening (hp _) (by rw [sentSets_cons, hsent]; rfl)
  | following s sub hjoined hp =>
      have hjoined' : ∀ e, Joined (e :: past) s.tenant sub :=
        fun e => List.mem_cons_of_mem e hjoined
      rcases hp.act with ⟨set, n, k, heq, hseen, htrue, hfalse⟩ | ⟨n, heq, hseen⟩
      · cases heq
        simp only [exec]
        cases ω.sendOk.head with
        | false => exact .leaving hfalse
        | true =>
            rw [htrue]
            refine .following s sub (hjoined' _) ?_
            rw [sentSets_cons, hseen]
            exact .loop n _
      · cases heq
        simp only [exec]
        split
        · exact .leaving trivial
        · have hbox : ((g.hub.receive sub.channel).box sub.channel).seen =
              (g.hub.box sub.channel).slot.toList ++ (g.hub.box sub.channel).seen := by
            simp [Hub.receive, Mailbox.receive]
          unfold selected
          cases hslot : (g.hub.box sub.channel).slot with
          | some set =>
              refine .following s sub (hjoined' _) ?_
              rw [sentSets_cons, hbox, hslot, hseen]
              exact .sending n set _ _ rfl trivial
          | none =>
              cases (g.hub.box sub.channel).closed with
              | true => exact .leaving trivial
              | false =>
                  refine .following s sub (hjoined' _) ?_
                  rw [sentSets_cons, hbox, hslot, hseen]
                  exact .loop n _

omit [GoText.CaseTables] in
/-- The channel that a thread takes from is one it was given. -/
theorem Delivers.selects {c : ℕ} {next : Selected → Program interface Answer}
    (h : Delivers g.hub (.act (.select c) next) past) :
    ∃ tenantID sub, Joined past tenantID sub ∧ sub.channel = c ∧
      sentSets past = (g.hub.box c).seen := by
  cases h with
  | leaving hp => exact hp.elim
  | opening hp hsent => exact hp.elim
  | following s sub hjoined hp =>
      rcases hp.act with ⟨set, n, k, heq, -⟩ | ⟨n, heq, hseen⟩
      · exact absurd (congrArg Sigma.fst heq) (by simp)
      · have hc : Action.select c = .select sub.channel := congrArg Sigma.fst heq
        obtain rfl := Action.select.inj hc
        exact ⟨s.tenant, sub, hjoined, rfl, hseen.symm⟩

omit [GoText.CaseTables] in
theorem delivering_initial (hs : g.hub.Settled) (hn : g.hub.Numbered) :
    Delivering (Pool.initial g) where
  settled := hs
  numbered := fun _ => hn
  threads := fun _ _ _ _ h => absurd h (by simp [Pool.initial])
  given := fun _ _ _ _ _ _ h => absurd h (by simp [Pool.initial])
  apart := fun _ _ _ _ _ _ _ _ _ _ _ _ _ h => absurd h (by simp [Pool.initial])

variable {c : Journals} {i : ℕ}

omit [GoText.CaseTables] in
theorem Delivering.start (h : Delivering c) {p : Program interface Answer}
    {ω : StreamOracle} (hp : Opening p) :
    Delivering { c with thread := Function.update c.thread i (some (p, ω, [])) } where
  settled := h.settled
  numbered := h.numbered
  threads := by
    intro j q ω' past hj
    rcases Pool.thread_update hj with ⟨rfl, rfl, heq⟩ | ⟨-, hj⟩
    · obtain ⟨rfl, rfl⟩ := Prod.mk.inj heq
      exact .opening hp rfl
    · exact h.threads j q ω' past hj
  given := by
    intro j q ω' past tenantID sub hj hjoined
    rcases Pool.thread_update hj with ⟨rfl, rfl, heq⟩ | ⟨-, hj⟩
    · obtain ⟨rfl, rfl⟩ := Prod.mk.inj heq
      exact absurd hjoined List.not_mem_nil
    · exact h.given j q ω' past tenantID sub hj hjoined
  apart := by
    intro j k q q' ω₁ ω₂ past past' tenantID tenantID' sub sub' hjk hj hk hjoined hjoined'
    rcases Pool.thread_update hj with ⟨rfl, rfl, heq⟩ | ⟨-, hj⟩
    · obtain ⟨rfl, rfl⟩ := Prod.mk.inj heq
      exact absurd hjoined List.not_mem_nil
    · rcases Pool.thread_update hk with ⟨rfl, rfl, heq⟩ | ⟨-, hk⟩
      · obtain ⟨rfl, rfl⟩ := Prod.mk.inj heq
        exact absurd hjoined' List.not_mem_nil
      · exact h.apart j k q q' ω₁ ω₂ past past' _ _ sub sub' hjk hj hk hjoined hjoined'

theorem Delivering.advance (h : Delivering c) {next : Reply a → Program interface Answer}
    (hi : c.thread i = some (.act a next, ω, past)) :
    Delivering ⟨(exec a ω c.shared).2.2, Function.update c.thread i
      (some (next (exec a ω c.shared).1, (exec a ω c.shared).2.1,
        ⟨a, (exec a ω c.shared).1⟩ :: past))⟩ := by
  obtain ⟨hevolves, hseen⟩ := hub_exec h.settled a ω
  have hthread := h.threads i _ ω past hi
  -- A subscription in the journal of slot `i` is an old one or has just been made.
  have hnew : ∀ {tenantID sub}, Joined (⟨a, (exec a ω c.shared).1⟩ :: past) tenantID sub →
      Joined past tenantID sub ∨ sub.channel = c.shared.hub.made ∧ a = .subscribe tenantID := by
    intro tenantID sub hjoined
    rcases joined_cons hjoined with hold | ⟨ha, hsub⟩
    · exact Or.inl hold
    · exact Or.inr ⟨(subscribed_eq_some h.settled.free hsub).1, ha⟩
  have hold : ∀ {j q ω' past' tenantID sub}, c.thread j = some (q, ω', past') →
      Joined past' tenantID sub → sub.channel < (exec a ω c.shared).2.2.hub.made ∧
        ∀ id, (exec a ω c.shared).2.2.hub.Watches id sub.channel →
          id = tenantID ∨ id = defaultID := by
    intro j q ω' past' tenantID sub hj hjoined
    obtain ⟨hlt, hwatches⟩ := h.given j q ω' past' tenantID sub hj hjoined
    exact ⟨hlt.trans_le hevolves.made,
      fun id hid => hwatches id (hevolves.watched id _ hlt hid)⟩
  refine ⟨hevolves.settled, fun hlimit => ?_, ?_, ?_, ?_⟩
  · exact hevolves.numbered (h.numbered (hevolves.made.trans hlimit)) hlimit
  · intro j q ω' past' hj
    rcases Pool.thread_update hj with ⟨rfl, rfl, heq⟩ | ⟨hji, hbefore⟩
    · obtain ⟨rfl, rfl⟩ := Prod.mk.inj heq
      exact hthread.act h.settled
    · cases h.threads j q ω' past' hbefore with
      | opening hp hsent => exact .opening hp hsent
      | leaving hp => exact .leaving hp
      | following s sub hjoined hp =>
          refine .following s sub hjoined ?_
          rw [hseen sub.channel (h.given j q ω' past' _ sub hbefore hjoined).1]
          · exact hp
          · rintro rfl
            obtain ⟨tenantID, sub', hjoined', hchannel, -⟩ := hthread.selects
            exact h.apart i j _ _ _ _ _ _ _ _ sub' sub (Ne.symm hji) hi hbefore hjoined' hjoined
              hchannel
  · intro j q ω' past' tenantID sub hj hjoined
    rcases Pool.thread_update hj with ⟨rfl, rfl, heq⟩ | ⟨-, hj⟩
    · obtain ⟨rfl, rfl⟩ := Prod.mk.inj heq
      rcases hnew hjoined with hjoined | ⟨hchannel, rfl⟩
      · exact hold hi hjoined
      · obtain ⟨-, -, hfollows⟩ := evolves_after h.settled (.subscribe tenantID)
        rw [hchannel]
        refine ⟨?_, fun id ⟨n, hn⟩ => ?_⟩
        · exact (Nat.lt_succ_self _).trans_eq hfollows.made.symm
        · rcases hfollows.older id n _ hn with hbefore | ⟨tenantID', heq, hresolves, -⟩
          · exact absurd (h.settled.sound.allocated id _ ⟨n, hbefore⟩) (lt_irrefl _)
          · obtain rfl := HubCall.subscribe.inj heq
            exact hresolves.cases
    · exact hold hj hjoined
  · intro j k q q' ω₁ ω₂ past₁ past₂ tenantID tenantID' sub sub' hjk hj hk hjoined hjoined'
    rcases Pool.thread_update hj with ⟨rfl, rfl, heq⟩ | ⟨-, hbefore⟩
    · obtain ⟨rfl, rfl⟩ := Prod.mk.inj heq
      have hk := (Pool.thread_update hk).resolve_left fun hself => hjk hself.1.symm
      rcases hnew hjoined with hjoined | ⟨hchannel, -⟩
      · exact h.apart j k _ _ _ _ _ _ _ _ sub sub' hjk hi hk.2 hjoined hjoined'
      · rw [hchannel]
        exact (h.given k q' ω₂ past₂ _ sub' hk.2 hjoined').1.ne'
    · rcases Pool.thread_update hk with ⟨rfl, rfl, heq⟩ | ⟨-, hk⟩
      · obtain ⟨rfl, rfl⟩ := Prod.mk.inj heq
        rcases hnew hjoined' with hjoined' | ⟨hchannel, -⟩
        · exact h.apart j k _ _ _ _ _ _ _ _ sub sub' hjk hbefore hi hjoined hjoined'
        · rw [hchannel]
          exact (h.given j q ω₁ past₁ _ sub hbefore hjoined).1.ne
      · exact h.apart j k q q' ω₁ ω₂ past₁ past₂ _ _ sub sub' hjk hbefore hk hjoined hjoined'

theorem Delivering.move {cfg : Config} {m : JournalTurn} (h : Delivering c)
    (hm : JournalStarts cfg m) : Delivering (c.move (journaled exec) m) := by
  rcases c.move_cases (journaled exec) m with heq | ⟨i, p, ω, rfl, -, heq⟩ |
    ⟨i, a, next, ω, rfl, hi, heq⟩
  · rw [heq]
    exact h
  · obtain ⟨ω, past⟩ := ω
    obtain ⟨rfl, hstart⟩ : past = [] ∧ _ := hm
    rw [heq]
    apply h.start
    rcases hstart with ⟨call, rfl⟩ | ⟨claims, key, n, rfl⟩
    · exact opening_lift _
    · exact opening_watch claims key n
  · rw [heq]
    exact h.advance hi

variable {cfg : Config} {server : Server} {ips dns : List String} {turns : List JournalTurn}

theorem delivering_run (h : Delivering c) (hstarts : ∀ m ∈ turns, JournalStarts cfg m) :
    Delivering (run (Pool.move (journaled exec)) c turns) := by
  induction turns generalizing c with
  | nil => exact h
  | cons m turns ih =>
      obtain ⟨hm, hturns⟩ := List.forall_mem_cons.mp hstarts
      exact ih (h.move hm) hturns

/-- Any calls of the API and streams, overlapping as they like, from the start of
the watchers. A stream that is in its `select` has sent exactly the sets that were
taken from its channel. If its subscription lasts and nothing is waiting in the
channel, the set it sent last is the current one of the tenant it subscribed to,
or of the default tenant, which stands in for a missing one. The subscription
lasts until the channel is closed, as long as the numbers of the subscriptions do. -/
theorem streams_deliver (hstarts : ∀ m ∈ turns, JournalStarts cfg m) {ch : ℕ}
    {next : Selected → Program interface Answer}
    (hi : (run (Pool.move (journaled exec)) (.initial ⟨server, .new ips dns⟩) turns).thread i =
      some (.act (.select ch) next, ω, past)) :
    let h := (run (Pool.move (journaled exec)) (.initial ⟨server, .new ips dns⟩)
      turns).shared.hub
    ∃ tenantID sub, Joined past tenantID sub ∧ sub.channel = ch ∧
      sentSets past = (h.box ch).seen ∧
      (∀ id t, h.store.tenants.lookup id = some t → h.Watches id ch →
        (id = tenantID ∨ id = defaultID) ∧
          ((h.box ch).slot = none → (sentSets past).head? = some t.routes)) ∧
      ((h.box ch).closed = false → h.made ≤ 2 ^ 64 →
        ∃ id t, h.store.tenants.lookup id = some t ∧ h.Watches id ch) := by
  intro h
  have hdel := delivering_run (delivering_initial (g := ⟨server, .new ips dns⟩)
    (Hub.settled_new ips dns) (Hub.numbered_new ips dns)) hstarts
  obtain ⟨tenantID, sub, hjoined, hchannel, hsent⟩ := (hdel.threads i _ ω past hi).selects
  obtain ⟨hlt, hwatches⟩ := hdel.given i _ ω past tenantID sub hi hjoined
  rw [hchannel] at hlt hwatches
  refine ⟨tenantID, sub, hjoined, hchannel, hsent, ?_, ?_⟩
  · intro id t hid hwatch
    refine ⟨hwatches id hwatch, fun hslot => ?_⟩
    have hcurrent := (hdel.settled.sound.current id t ch hid hwatch).resolve_right fun hunsent => by
      rw [hdel.settled.free] at hunsent
      exact hunsent
    rcases Mailbox.head_history_iff.mp hcurrent with hwaiting | ⟨-, hlast⟩
    · exact absurd (hslot.symm.trans hwaiting) (by simp)
    · rw [hsent]
      exact hlast
  · intro hopen hlimit
    by_contra hnone
    have hunwatched : ∀ id, ¬ h.Watches id ch := by
      intro id hwatch
      obtain ⟨n, hn⟩ := hwatch
      obtain ⟨t, ht⟩ := hdel.settled.filed id n ch hn
      exact hnone ⟨id, t, ht, n, hn⟩
    have hclosed := (hdel.numbered hlimit).released ch hlt hunwatched
    exact absurd (hopen.symm.trans hclosed) (by simp)

end Journals

/-- The channel that an action takes from. -/
def Action.waitsOn : Action → Option ℕ
  | .select c => some c
  | _ => none

theorem Action.waitsOn_eq_some {a : Action} {c : ℕ} (h : a.waitsOn = some c) : a = .select c := by
  cases a with
  | select c' => exact congrArg _ (Option.some.inj h)
  | _ => exact absurd h (by simp [waitsOn])

attribute [local instance] GoText.asciiTables

namespace Sample

open Api.Sample (claims key₁ config)

/-- Alice's stream is opened, the default tenant is given other routes, and the
stream takes them and sends them. -/
def followed : List JournalTurn :=
  .start 0 (watch (some (claims "alice")) key₁ 5) (oracle, []) ::
    List.replicate 5 (.advance 0) ++
    [.start 1 (lift ((Call.updateTenant defaultID moved).program (config false))) (oracle, []),
      .advance 1, .advance 0, .advance 0]

end Sample

theorem update_delivered :
    let c := run (Pool.move (journaled exec)) (.initial Sample.enrolled) Sample.followed
    ∃ p ω past, c.thread 0 = some (p, ω, past) ∧
      (sentSets past).head? = some ⟨["10.99.0.0/16"], [], 2⟩ := by
  intro c
  have hstarts : ∀ m ∈ Sample.followed, JournalStarts (Api.Sample.config false) m := by
    simp only [Sample.followed, List.cons_append, List.forall_mem_append, List.forall_mem_cons,
      List.mem_replicate]
    refine ⟨⟨rfl, Or.inr ⟨_, _, _, rfl⟩⟩, ?_, ⟨rfl, Or.inl ⟨_, rfl⟩⟩, trivial, trivial, trivial,
      nofun⟩
    rintro m ⟨-, rfl⟩
    trivial
  have htakes : (c.nextAction 0).bind Action.waitsOn = some 0 := by decide +kernel
  obtain ⟨a, hnext, ha⟩ := Option.bind_eq_some_iff.mp htakes
  obtain rfl := Action.waitsOn_eq_some ha
  obtain ⟨next, ⟨ω, past⟩, hi⟩ := Pool.thread_of_nextAction hnext
  obtain ⟨tenantID, sub, -, -, -, hcurrent, -⟩ := streams_deliver hstarts hi
  obtain ⟨-, hlast⟩ := hcurrent defaultID { Sample.moved with serial := 2, id := defaultID }
    (by decide +kernel) ⟨0, by decide +kernel⟩
  exact ⟨_, ω, past, hi, hlast (by decide +kernel)⟩

end Grpc

end Claimward
