import Claimward.Ssfpoll.Poller
import Claimward.Ssfpoll.Provenance

/-!
# The poller's requests and its events

There are two models of the poller: its program of requests, with every request
for a token or a stream, and the machine of its events, which has a step for
each call. Here the program runs beside `Registry.Run`, one half of an action at
a time, and every such run is a run of the machine.
-/

namespace Claimward.Ssfpoll

open AtomicProgram Fallible Runs

/-- What the two loops share, and what has happened so far. -/
structure Shared where
  registry : RegistryAt
  kick : Mailbox Unit
  cancelled : Bool
  log : List Entry

def System.shared (s : System) : Shared := ⟨s.registry, s.kick, s.cancelled, s.log⟩

/-- The rest of the poller's program, or what it does with the reply it waits for. -/
inductive Phase (Body : Type) where
  | running (rest : Program (interface Body) (Except PollError Unit × Poller))
  | awaiting (a : Action)
      (next : Reply Body a → Program (interface Body) (Except PollError Unit × Poller))

/-- The poller's program beside `Registry.Run`. -/
structure Joint (Body : Type) where
  phase : Phase Body
  shared : Shared

/-- The poller asks for its next action, or gets the reply that the environment
has for it; or a step of `Registry.Run`. -/
inductive JointLabel (Body : Type) where
  | ask
  | reply (answer : (a : Action) → Reply Body a)
  | registry (l : Label)

/-- What a poll acknowledges. -/
def Action.acknowledges : Action → Option (List String)
  | .send ⟨_, _, _, .poll acks⟩ => some acks
  | _ => none

namespace Shared

/-- A poll is sent. -/
def asked (s : Shared) (a : Action) : Shared :=
  match a.acknowledges with
  | some acks => { s with log := .sent acks :: s.log }
  | none => s

/-- Events are decoded, or a fetch is asked for. -/
def replied (s : Shared) (n : News) : Action → Shared
  | .kick =>
      { s with kick := s.kick.offer (), log := .kicked s.kick.slot.isSome :: s.log }
  | _ =>
      match n.decoded? with
      | some ids => { s with log := .answered ids :: s.log }
      | none => s

/-- The machine without its poller. -/
def alone (s : Shared) : System := ⟨.returned, none, [], s.registry, s.kick, s.cancelled, s.log⟩

end Shared

section Joint

variable {Body : Type} (c : Codec Body) (cfg : Config)

def Joint.step (j : Joint Body) : JointLabel Body → Joint Body
  | .ask =>
      match j.phase with
      | .running (.act a next) => ⟨.awaiting a next, j.shared.asked a⟩
      | _ => j
  | .reply answer =>
      match j.phase with
      | .awaiting a next =>
          ⟨.running (next (answer a)), j.shared.replied (news c cfg ⟨a, answer a⟩) a⟩
      | _ => j
  | .registry l => { j with shared := (j.shared.alone.step l).shared }

/-- Some calls of `Once` are about to begin. -/
def Joint.start (forgets : List Bool) : Joint Body :=
  ⟨.running ((session c cfg forgets).start Poller.new), Ssfpoll.start.shared⟩

end Joint

/-- The poller is about to ask for a fetch of the list. -/
def Phase.Kicks {Body : Type} : Phase Body → Prop
  | .running (.act a _) => a = .kick
  | .awaiting a _ => a = .kick
  | _ => False

namespace System

variable {s : System}

/-- The poller of the machine rests: it is before `Once` or in its `select`. -/
def Rests (s : System) : Prop := s.poller = .once ∨ s.poller = .waiting

/-- From a rest, the machine gets to send a poll. -/
theorem exists_request (h : s.Rests) :
    ∃ steps url, run step s steps =
      { s with poller := .polling, pollURL := some url, log := .sent s.acks :: s.log } := by
  obtain ⟨steps, hsteps⟩ : ∃ steps, run step s steps = { s with poller := .once } := by
    cases h with
    | inl honce => exact ⟨[], by rw [← honce]; rfl⟩
    | inr hwaiting => exact ⟨[.pollTick], by simp [step, hwaiting]⟩
  cases hurl : s.pollURL with
  | some url =>
      refine ⟨steps ++ [.request true], url, ?_⟩
      rw [run_append, hsteps]
      simp [step, hurl]
  | none =>
      refine ⟨steps ++ [.setup (some ""), .request true], "", ?_⟩
      rw [run_append, hsteps]
      simp [step, hurl]

/-- A step of `Registry.Run` does not depend on the poller, and leaves it where it
is. -/
theorem exists_registry (s : System) (l : Label) :
    ∃ steps, (run step s steps).shared = (s.shared.alone.step l).shared ∧
      (run step s steps).poller = s.poller ∧ (run step s steps).acks = s.acks := by
  cases l with
  | fetch =>
      refine ⟨[.fetch], ?_⟩
      by_cases h : s.registry = .refresh
      · simp [step, shared, Shared.alone, h]
      · simp [step, shared, Shared.alone, h]
  | fetched ok =>
      refine ⟨[.fetched ok], ?_⟩
      by_cases h : s.registry = .fetching
      · simp [step, shared, Shared.alone, h]
      · simp [step, shared, Shared.alone, h]
  | onList =>
      refine ⟨[.onList], ?_⟩
      by_cases h : s.registry = .listed
      · simp [step, shared, Shared.alone, h]
      · simp [step, shared, Shared.alone, h]
  | refreshTick =>
      refine ⟨[.refreshTick], ?_⟩
      by_cases h : s.registry = .selecting
      · simp [step, shared, Shared.alone, h]
      · simp [step, shared, Shared.alone, h]
  | kicked =>
      refine ⟨[.kicked], ?_⟩
      by_cases h : s.registry = .selecting ∧ s.kick.slot.isSome
      · simp [step, shared, Shared.alone, h]
      · simp [step, shared, Shared.alone, h]
  | refreshDone =>
      refine ⟨[.refreshDone], ?_⟩
      by_cases h : s.registry = .selecting ∧ s.cancelled
      · simp [step, shared, Shared.alone, h]
      · simp [step, shared, Shared.alone, h]
  | cancel => exact ⟨[.cancel], rfl, rfl, rfl⟩
  | _ => exact ⟨[], by simp [step, shared, Shared.alone]⟩

end System

section Simulation

variable {Body : Type} {c : Codec Body} {cfg : Config} {past : List (Event Body)} {j : Joint Body}
  {m : System}

/-- A justified poll acknowledges the events received last. -/
theorem Justified.acknowledges {a : Action} {acks : List String} (h : Justified c cfg past a)
    (hacks : a.acknowledges = some acks) :
    ¬ Undelivered c cfg past ∧ acks = received c cfg past := by
  cases a with
  | now => exact absurd hacks (by simp [Action.acknowledges])
  | kick => exact absurd hacks (by simp [Action.acknowledges])
  | send r =>
      refine ⟨h.1, ?_⟩
      obtain ⟨method, url, authorization, content⟩ := r
      cases content with
      | poll acks' =>
          obtain rfl := Option.some.inj hacks
          cases authorization with
          | anonymous => exact absurd h.2.1 (by simp)
          | basic user password => exact absurd h.2.1 (by simp)
          | bearer tok => exact h.2.2.2
      | _ => exact absurd hacks (by simp [Action.acknowledges])

theorem decoded_metadataNews (url : String) (body : Body) :
    (metadataNews c cfg url body).decoded? = none := by
  unfold metadataNews
  split
  · split
    · rfl
    · rfl
  · split
    · rfl
    · rfl

theorem decoded_tokenNews (body : Body) : (tokenNews c body).decoded? = none := by
  unfold tokenNews
  split
  · split
    · rfl
    · rfl
  · rfl

theorem decoded_documentNews {content : Content} (hcontent : ∀ acks, content ≠ .poll acks)
    (body : Body) : (documentNews c content body).decoded? = none := by
  unfold documentNews
  split
  · exact absurd rfl (hcontent _)
  · split
    · split
      · rfl
      · rfl
    · rfl
  · split
    · split
      · rfl
      · rfl
    · rfl

/-- Only polls bring events. -/
theorem decoded_of_acknowledges {a : Action} (ha : a.acknowledges = none) (r : Reply Body a) :
    (news c cfg ⟨a, r⟩).decoded? = none := by
  cases a with
  | now => rfl
  | kick => rfl
  | send request =>
      obtain ⟨method, url, authorization, content⟩ := request
      cases r with
      | failed err => rfl
      | answered status body =>
          have hcontent : ∀ acks, content ≠ .poll acks := by
            intro acks hpoll
            exact absurd ha (by simp [Action.acknowledges, hpoll])
          simp only [news, exchangeNews, answerNews]
          split
          · split
            · exact decoded_metadataNews url body
            · rfl
          · exact decoded_tokenNews body
          · split
            · exact decoded_documentNews hcontent body
            · split
              · rfl
              · rfl

theorem Undelivered.received_ne_nil (h : Undelivered c cfg past) : received c cfg past ≠ [] := by
  obtain ⟨ids, hids, hhead⟩ := h
  cases past with
  | nil => exact absurd hhead (by simp)
  | cons e past =>
      have hdecoded : (news c cfg e).decoded? = some ids := hhead
      rw [received_cons, hdecoded]
      exact hids

/-- The machine's poller is where the past says. -/
def Stands (c : Codec Body) (cfg : Config) (past : List (Event Body)) (m : System) : Prop :=
  (Undelivered c cfg past → m.poller = .decoded (received c cfg past)) ∧
    (¬ Undelivered c cfg past → m.Rests ∧ m.acks = received c cfg past)

theorem stands_of_rests {e : Event Body} (hnews : (news c cfg e).decoded? = none)
    (hrests : m.Rests) (hacks : m.acks = received c cfg past) : Stands c cfg (e :: past) m := by
  constructor
  · rintro ⟨ids, -, hids⟩
    exact absurd (hnews.symm.trans hids) (by simp)
  · intro _
    rw [received_cons, hnews]
    exact ⟨hrests, hacks⟩

/-- The rest of the poller's program is within the rule. -/
abbrev Rest (c : Codec Body) (cfg : Config) (past : List (Event Body))
    (rest : Program (interface Body) (Except PollError Unit × Poller)) : Prop :=
  rest.Within (Justified c cfg) (Ends (fun _ => Kept c cfg) (Kept c cfg)) past

/-- The poller's program is at the phase after the past, and the machine's poller
where it then is. -/
def Phase.Fits (c : Codec Body) (cfg : Config) (past : List (Event Body)) (m : System) :
    Phase Body → Prop
  | .running rest => Rest c cfg past rest ∧ Stands c cfg past m
  | .awaiting a next =>
      Justified c cfg past a ∧ (∀ r, Rest c cfg (⟨a, r⟩ :: past) (next r)) ∧
        (∀ acks, a.acknowledges = some acks →
          m.poller = .polling ∧ m.acks = received c cfg past) ∧
        (a.acknowledges = none → Stands c cfg past m)

/-- The machine has done what the joint run has. -/
def Simulates (c : Codec Body) (cfg : Config) (m : System) (j : Joint Body) : Prop :=
  j.shared = m.shared ∧ ∃ past, j.phase.Fits c cfg past m

theorem Simulates.ask (h : Simulates c cfg m j) :
    ∃ steps, Simulates c cfg (run System.step m steps) (j.step c cfg .ask) := by
  obtain ⟨hshared, past, hfits⟩ := h
  obtain ⟨phase, shared⟩ := j
  obtain rfl : shared = m.shared := hshared
  cases phase with
  | awaiting a next => exact ⟨[], rfl, past, hfits⟩
  | running rest =>
      cases rest with
      | ret v => exact ⟨[], rfl, past, hfits⟩
      | act a next =>
          obtain ⟨⟨hjust, hnext⟩, hstands⟩ := hfits
          cases hacks : a.acknowledges with
          | none =>
              refine ⟨[], ?_, past, hjust, hnext, fun acks h => ?_, fun _ => hstands⟩
              · simp [Joint.step, Shared.asked, hacks]
              · exact absurd (hacks.symm.trans h) (by simp)
          | some acks =>
              obtain ⟨hidle, rfl⟩ := hjust.acknowledges hacks
              obtain ⟨hrests, hheld⟩ := hstands.2 hidle
              obtain ⟨steps, url, hsteps⟩ := System.exists_request hrests
              refine ⟨steps, ?_, past, hjust, hnext, fun acks _ => ?_, fun h => ?_⟩
              · rw [hsteps]
                simp [Joint.step, Shared.asked, hacks, System.shared, hheld]
              · rw [hsteps]
                exact ⟨rfl, hheld⟩
              · exact absurd (hacks.symm.trans h) (by simp)

/-- The answer to a poll. -/
theorem exists_answer (hpoller : m.poller = .polling) (hacks : m.acks = received c cfg past)
    {r : Request} (answer : Answer Body) :
    ∃ steps, m.shared.replied (news c cfg ⟨.send r, answer⟩) (.send r) =
        (run System.step m steps).shared ∧
      Stands c cfg (⟨.send r, answer⟩ :: past) (run System.step m steps) := by
  cases hnews : (news c cfg ⟨.send r, answer⟩).decoded? with
  | none =>
      refine ⟨[.answer none], ?_, stands_of_rests hnews ?_ ?_⟩
      · simp [Shared.replied, hnews, System.step, hpoller, System.fail, System.shared]
      · exact Or.inr (by simp [System.step, hpoller, System.fail])
      · simpa [System.step, hpoller, System.fail] using hacks
  | some ids =>
      have hreceived : received c cfg (⟨.send r, answer⟩ :: past) = ids := by
        rw [received_cons, hnews]
        rfl
      by_cases hids : ids = []
      · refine ⟨[.answer (some ids), .deliver], ?_, ?_, fun _ => ?_⟩
        · simp [Shared.replied, hnews, System.step, hpoller, System.deliver, System.shared, hids]
        · rintro ⟨ids', hne, heq⟩
          obtain rfl := Option.some.inj (hnews.symm.trans heq)
          exact absurd hids hne
        · rw [hreceived]
          refine ⟨Or.inr ?_, ?_⟩
          · simp [System.step, hpoller, System.deliver, hids]
          · simp [System.step, hpoller, System.deliver, hids]
      · refine ⟨[.answer (some ids)], ?_, fun _ => ?_, fun hidle => ?_⟩
        · simp [Shared.replied, hnews, System.step, hpoller, System.shared]
        · rw [hreceived]
          simp [System.step, hpoller]
        · exact absurd ⟨ids, hids, hnews⟩ hidle

theorem Simulates.reply (h : Simulates c cfg m j) (answer : (a : Action) → Reply Body a) :
    ∃ steps, Simulates c cfg (run System.step m steps) (j.step c cfg (.reply answer)) := by
  obtain ⟨hshared, past, hfits⟩ := h
  obtain ⟨phase, shared⟩ := j
  obtain rfl : shared = m.shared := hshared
  cases phase with
  | running rest => exact ⟨[], rfl, past, hfits⟩
  | awaiting a next =>
      obtain ⟨hjust, hnext, hpolling, hstands⟩ := hfits
      cases hacks : a.acknowledges with
      | some acks =>
          obtain ⟨hpoller, hheld⟩ := hpolling acks hacks
          cases a with
          | send r =>
              obtain ⟨steps, hreplied, hend⟩ := exists_answer hpoller hheld (answer (.send r))
              exact ⟨steps, hreplied, _, hnext _, hend⟩
          | _ => exact absurd hacks (by simp [Action.acknowledges])
      | none =>
          have hnews : (news c cfg ⟨a, answer a⟩).decoded? = none :=
            decoded_of_acknowledges hacks (answer a)
          cases a with
          | kick =>
              have hids := Undelivered.received_ne_nil hjust
              have hpoller := (hstands hacks).1 hjust
              refine ⟨[.deliver], ?_, _, hnext _, stands_of_rests hnews ?_ ?_⟩
              · simp [Joint.step, Shared.replied, System.step, hpoller, System.deliver,
                  System.shared, hids]
              · exact Or.inr (by simp [System.step, hpoller, System.deliver, hids])
              · simp [System.step, hpoller, System.deliver, hids]
          | now =>
              obtain ⟨hrests, hheld⟩ := (hstands hacks).2 hjust
              refine ⟨[], ?_, _, hnext _, stands_of_rests hnews hrests hheld⟩
              simp [Joint.step, Shared.replied, hnews]
          | send r =>
              obtain ⟨hrests, hheld⟩ := (hstands hacks).2 hjust.1
              refine ⟨[], ?_, _, hnext _, stands_of_rests hnews hrests hheld⟩
              simp [Joint.step, Shared.replied, hnews]

theorem Simulates.registry (h : Simulates c cfg m j) (l : Label) :
    ∃ steps, Simulates c cfg (run System.step m steps) (j.step c cfg (.registry l)) := by
  obtain ⟨hshared, past, hfits⟩ := h
  obtain ⟨steps, hsteps, hpoller, hacks⟩ := m.exists_registry l
  have hstands : Stands c cfg past m → Stands c cfg past (run System.step m steps) := by
    unfold Stands System.Rests
    rw [hpoller, hacks]
    exact id
  refine ⟨steps, ?_, past, ?_⟩
  · rw [hsteps, ← hshared]
    rfl
  · cases hphase : j.phase with
    | running rest =>
        simp only [Joint.step, hphase] at hfits ⊢
        exact ⟨hfits.1, hstands hfits.2⟩
    | awaiting a next =>
        simp only [Joint.step, hphase, Phase.Fits, hpoller, hacks] at hfits ⊢
        exact ⟨hfits.1, hfits.2.1, hfits.2.2.1, fun ha => hstands (hfits.2.2.2 ha)⟩

theorem simulates_start (forgets : List Bool) :
    Simulates c cfg start (Joint.start c cfg forgets) := by
  refine ⟨rfl, [], tracks_session forgets Poller.new [] kept_new, ?_, fun _ => ⟨Or.inl rfl, rfl⟩⟩
  intro h
  exact absurd h kept_new.idle

/-- What the machine does for one step of the joint run, it does for the whole. -/
theorem simulates_run (forgets : List Bool) (labels : List (JointLabel Body)) :
    ∃ steps, Simulates c cfg (run System.step start steps)
      (run (Joint.step c cfg) (Joint.start c cfg forgets) labels) := by
  refine run_invariant (fun j => ∃ steps, Simulates c cfg (run System.step start steps) j)
    (fun j l hj => ?_) ⟨[], simulates_start forgets⟩ labels
  obtain ⟨steps, h⟩ := hj
  obtain ⟨more, hmore⟩ : ∃ more, Simulates c cfg
      (run System.step (run System.step start steps) more) (j.step c cfg l) := by
    cases l with
    | ask => exact h.ask
    | reply answer => exact h.reply answer
    | registry l => exact h.registry l
  refine ⟨steps ++ more, ?_⟩
  rw [run_append]
  exact hmore

/-- Where the machine has events in hand, the program is about to ask for a fetch. -/
theorem Simulates.kicks (h : Simulates c cfg m j) {ids : List String}
    (hids : m.poller = .decoded ids) : j.phase.Kicks := by
  obtain ⟨-, past, hfits⟩ := h
  have hundelivered : Stands c cfg past m → Undelivered c cfg past := by
    intro hstands
    by_contra hidle
    obtain ⟨hrests, -⟩ := hstands.2 hidle
    cases hrests with
    | inl hat => exact absurd (hids.symm.trans hat) (by simp)
    | inr hat => exact absurd (hids.symm.trans hat) (by simp)
  have hkick : ∀ a, Undelivered c cfg past → Justified c cfg past a → a = .kick := by
    intro a hun hjust
    cases a with
    | kick => rfl
    | now => exact absurd hun hjust
    | send r => exact absurd hun hjust.1
  cases hphase : j.phase with
  | running rest =>
      rw [hphase] at hfits
      have hun := hundelivered hfits.2
      cases rest with
      | ret v =>
          obtain ⟨ending, p⟩ := v
          cases ending with
          | ok _ => exact absurd hun (Kept.idle hfits.1)
          | error _ => exact absurd hun (Kept.idle hfits.1)
      | act a next => exact hkick a hun hfits.1.1
  | awaiting a next =>
      rw [hphase] at hfits
      obtain ⟨hjust, -, hpolling, hstands⟩ := hfits
      cases hacks : a.acknowledges with
      | none => exact hkick a (hundelivered (hstands hacks)) hjust
      | some acks =>
          exact absurd (hids.symm.trans (hpolling acks hacks).1) (by simp)

end Simulation

/-- Every run of the poller's program of requests beside `Registry.Run`, for any
provider, is a run of the machine: the same polls with the same acknowledgements,
decoded answers, kicks and fetches in the same order, the same channel and the
same place of `Registry.Run`. Where the machine has decoded events it has not
delivered, the program's next action is the kick. -/
theorem poller_refines_machine {Body : Type} (c : Codec Body) (cfg : Config)
    (forgets : List Bool) (labels : List (JointLabel Body)) :
    let j := run (Joint.step c cfg) (Joint.start c cfg forgets) labels
    ∃ steps, let m := run System.step start steps
      j.shared = m.shared ∧ ∀ ids, m.poller = .decoded ids → j.phase.Kicks := by
  intro j
  obtain ⟨steps, hsim⟩ := simulates_run (c := c) forgets labels
  exact ⟨steps, hsim.1, fun ids hids => hsim.kicks hids⟩

end Claimward.Ssfpoll
