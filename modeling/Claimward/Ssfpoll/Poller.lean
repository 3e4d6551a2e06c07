import Claimward.Library.Mailbox
import Claimward.Library.Runs
import Mathlib.Tactic.Common

/-!
# Events and the fetches they ask for

`internal/ssfpoll`: `Poller.Run` polls a stream of events, and for every answer
that has some it asks for a fetch of the key list on a channel with room for one
token. `Registry.Run` of `internal/peers` fetches the list at every tick and for
every token. The two loops run side by side; each step below is one of a loop's
calls or channel operations, with the outcome that the environment decides.

Decoding an answer and sending the token are two steps of the poller. Between
them nothing says yet that a fetch is due.
-/

namespace Claimward.Ssfpoll

open Runs

/-- Where `Poller.Run` is: before `Once` or, once there is a stream, before its
poll; waiting for the answer; having decoded one; in its `select`; returned. -/
inductive PollerAt where
  | once
  | polling
  | decoded (ids : List String)
  | waiting
  | returned
  deriving DecidableEq

/-- Where `Registry.Run` is: before `Fetch`, in it, before `onList`, in its
`select`, or returned. -/
inductive RegistryAt where
  | refresh
  | fetching
  | listed
  | selecting
  | returned
  deriving DecidableEq

/-- What the statements are about: a poll request with its ack list, a decoded
answer with its event ids, a kick, which may find another one pending, and the
start of a fetch. -/
inductive Entry where
  | sent (acks : List String)
  | answered (ids : List String)
  | kicked (pending : Bool)
  | fetchStarted
  deriving DecidableEq

/-- The two loops, the channel between them, and what has happened so far, the
latest first. -/
structure System where
  poller : PollerAt
  pollURL : Option String
  acks : List String
  registry : RegistryAt
  kick : Mailbox Unit
  cancelled : Bool
  log : List Entry

/-- Both loops are about to begin. -/
def start : System := ⟨.once, none, [], .refresh, .empty, false, []⟩

/-- One step of a loop, with its outcome: what `setup` finds, whether the request
of a poll is sent at all, what the answer has if it can be decoded, whether
`Fetch` succeeds. The case of a `select` is the step's; `cancel` ends the context. -/
inductive Label where
  | setup (url : Option String)
  | request (sent : Bool)
  | answer (sets : Option (List String))
  | deliver
  | pollTick
  | pollDone
  | fetch
  | fetched (ok : Bool)
  | onList
  | refreshTick
  | kicked
  | refreshDone
  | cancel
  deriving DecidableEq

namespace System

/-- `Once` returns an error: the stream is set up again next time. -/
def fail (s : System) : System := { s with poller := .waiting, pollURL := none }

/-- The rest of `Once` after a decoded answer: the ids are to be acknowledged,
and if there are any a fetch is asked for. -/
def deliver (s : System) (ids : List String) : System :=
  if ids = [] then { s with poller := .waiting, acks := ids }
  else
    { s with
      poller := .waiting
      acks := ids
      kick := s.kick.offer ()
      log := .kicked s.kick.slot.isSome :: s.log }

/-- One step. A step that its loop is not at changes nothing. -/
def step (s : System) : Label → System
  | .setup url =>
      if s.poller = .once ∧ s.pollURL = none then
        match url with
        | none => s.fail
        | some url => { s with pollURL := some url }
      else s
  | .request sent =>
      if s.poller = .once ∧ s.pollURL ≠ none then
        if sent then { s with poller := .polling, log := .sent s.acks :: s.log } else s.fail
      else s
  | .answer sets =>
      if s.poller = .polling then
        match sets with
        | none => s.fail
        | some ids => { s with poller := .decoded ids, log := .answered ids :: s.log }
      else s
  | .deliver =>
      match s.poller with
      | .decoded ids => s.deliver ids
      | _ => s
  | .pollTick => if s.poller = .waiting then { s with poller := .once } else s
  | .pollDone =>
      if s.poller = .waiting ∧ s.cancelled then { s with poller := .returned } else s
  | .fetch =>
      if s.registry = .refresh then
        { s with registry := .fetching, log := .fetchStarted :: s.log }
      else s
  | .fetched ok =>
      if s.registry = .fetching then
        { s with registry := if ok then .listed else .selecting }
      else s
  | .onList => if s.registry = .listed then { s with registry := .selecting } else s
  | .refreshTick => if s.registry = .selecting then { s with registry := .refresh } else s
  | .kicked =>
      if s.registry = .selecting ∧ s.kick.slot.isSome then
        { s with registry := .refresh, kick := s.kick.receive }
      else s
  | .refreshDone =>
      if s.registry = .selecting ∧ s.cancelled then { s with registry := .returned } else s
  | .cancel => { s with cancelled := true }

end System

/-- The property holds of every entry and those before it. -/
def Throughout (P : Entry → List Entry → Prop) : List Entry → Prop
  | [] => True
  | e :: older => P e older ∧ Throughout P older

theorem Throughout.of_append {P : Entry → List Entry → Prop} {newer older : List Entry}
    {e : Entry} (h : Throughout P (newer ++ e :: older)) : P e older := by
  induction newer with
  | nil => exact h.1
  | cons e' newer ih => exact ih h.2

/-- Some event was received in a decoded answer and no fetch has started since. -/
def Unfetched : List Entry → Prop
  | [] => False
  | .fetchStarted :: _ => False
  | .answered ids :: older => ids ≠ [] ∨ Unfetched older
  | _ :: older => Unfetched older

theorem unfetched_append {newer older : List Entry} {ids : List String} (hids : ids ≠ [])
    (hnewer : .fetchStarted ∉ newer) : Unfetched (newer ++ .answered ids :: older) := by
  induction newer with
  | nil => exact Or.inl hids
  | cons e newer ih =>
      rw [List.mem_cons, not_or] at hnewer
      cases e with
      | sent acks => exact ih hnewer.2
      | answered ids' => exact Or.inr (ih hnewer.2)
      | kicked pending => exact ih hnewer.2
      | fetchStarted => exact absurd rfl hnewer.1

/-- The ids of the answer that was decoded last. -/
def lastAnswer : List Entry → List String
  | [] => []
  | .answered ids :: _ => ids
  | _ :: older => lastAnswer older

theorem lastAnswer_append {newer older : List Entry} {ids : List String}
    (hnewer : ∀ ids', .answered ids' ∉ newer) :
    lastAnswer (newer ++ .answered ids :: older) = ids := by
  induction newer with
  | nil => rfl
  | cons e newer ih =>
      have hrest : ∀ ids', .answered ids' ∉ newer :=
        fun ids' hmem => hnewer ids' (List.mem_cons_of_mem e hmem)
      cases e with
      | answered ids' => exact absurd List.mem_cons_self (hnewer ids')
      | _ => exact ih hrest

theorem exists_answered {log : List Entry} {id : String} (h : id ∈ lastAnswer log) :
    ∃ newer ids older, log = newer ++ .answered ids :: older ∧ id ∈ ids := by
  induction log with
  | nil => exact absurd h List.not_mem_nil
  | cons e log ih =>
      cases e with
      | answered ids => exact ⟨[], ids, log, rfl, h⟩
      | _ =>
          obtain ⟨newer, ids, older, heq, hid⟩ := ih h
          exact ⟨_ :: newer, ids, older, by rw [heq]; rfl, hid⟩

/-- The id was received in a decoded answer, after which a kick was placed or
found pending. -/
def Heard (id : String) (log : List Entry) : Prop :=
  ∃ newer ids older pending, log = newer ++ .answered ids :: older ∧ id ∈ ids ∧
    .kicked pending ∈ newer

theorem Heard.cons {id : String} {log : List Entry} (h : Heard id log) (e : Entry) :
    Heard id (e :: log) := by
  obtain ⟨newer, ids, older, pending, heq, hid, hkicked⟩ := h
  exact ⟨e :: newer, ids, older, pending, by rw [heq]; rfl, hid, List.mem_cons_of_mem e hkicked⟩

theorem heard_kicked {id : String} {log : List Entry} (h : id ∈ lastAnswer log) (pending : Bool) :
    Heard id (.kicked pending :: log) := by
  obtain ⟨newer, ids, older, heq, hid⟩ := exists_answered h
  exact ⟨.kicked pending :: newer, ids, older, pending, by rw [heq]; rfl, hid,
    List.mem_cons_self⟩

/-- The ids of a decoded answer that is still to be delivered. -/
def PollerAt.ids : PollerAt → Option (List String)
  | .decoded ids => some ids
  | _ => none

namespace System

variable {s s' : System}

/-- A fetch is due: a token is in the channel, `Registry.Run` is before `Fetch`,
or the poller is about to send a token. -/
def Due (s : System) : Prop :=
  s.kick.slot.isSome ∨ s.registry = .refresh ∨ ∃ ids, ids ≠ [] ∧ s.poller.ids = some ids

/-- What holds of the log and of the ack list in every state. -/
structure Sound (s : System) : Prop where
  due : Unfetched s.log → s.Due
  decoded : ∀ ids, s.poller.ids = some ids → lastAnswer s.log = ids
  held : s.poller.ids = none → ∀ id ∈ lastAnswer s.log, id ∈ s.acks
  heard : ∀ id ∈ s.acks, Heard id s.log
  sent : Throughout (fun e older => ∀ acks, e = .sent acks →
    (∀ id ∈ acks, Heard id older) ∧ ∀ id ∈ lastAnswer older, id ∈ acks) s.log

/-- A step that neither adds to the log nor delivers an answer. -/
theorem Sound.frame (h : s.Sound) (hlog : s'.log = s.log) (hacks : s'.acks = s.acks)
    (hids : s'.poller.ids = s.poller.ids) (hdue : s.Due → s'.Due) : s'.Sound := by
  refine ⟨?_, ?_, ?_, ?_, ?_⟩
  · rw [hlog]
    exact fun hlast => hdue (h.due hlast)
  · rw [hlog, hids]
    exact h.decoded
  · rw [hlog, hids, hacks]
    exact h.held
  · rw [hlog, hacks]
    exact h.heard
  · rw [hlog]
    exact h.sent

/-- A step of the poller that leaves `Registry.Run` and the channel alone. -/
theorem Due.of_poller (h : s.Due) (hkick : s'.kick = s.kick) (hregistry : s'.registry = s.registry)
    (hids : s'.poller.ids = s.poller.ids) : s'.Due := by
  unfold Due
  rw [hkick, hregistry, hids]
  exact h

/-- The poller goes on from where it has no answer in hand. -/
theorem Sound.move (h : s.Sound) (hids : s.poller.ids = none) {at' : PollerAt}
    (hids' : at'.ids = none) (url : Option String) :
    Sound { s with poller := at', pollURL := url } :=
  h.frame rfl rfl (hids'.trans hids.symm) fun hdue =>
    hdue.of_poller rfl rfl (hids'.trans hids.symm)

theorem Sound.fail (h : s.Sound) (hids : s.poller.ids = none) : s.fail.Sound :=
  h.move hids rfl none

theorem Sound.deliver (h : s.Sound) {ids : List String} (hids : s.poller.ids = some ids) :
    (s.deliver ids).Sound := by
  have hlast := h.decoded ids hids
  unfold System.deliver
  split
  · rename_i hnil
    refine ⟨?_, nofun, ?_, ?_, h.sent⟩
    · intro hun
      rcases h.due hun with hkick | hrefresh | ⟨ids', hne, heq⟩
      · exact Or.inl hkick
      · exact Or.inr (Or.inl hrefresh)
      · obtain rfl := Option.some.inj (hids.symm.trans heq)
        exact absurd hnil hne
    · intro _ id hid
      rwa [hlast] at hid
    · rw [hnil]
      exact fun id hid => absurd hid List.not_mem_nil
  · refine ⟨fun _ => Or.inl Mailbox.isSome_slot_offer, nofun, ?_, ?_, ⟨nofun, h.sent⟩⟩
    · intro _ id hid
      rw [← hlast]
      exact hid
    · intro id hid
      exact heard_kicked (hlast ▸ hid) _

theorem Sound.request (h : s.Sound) (hids : s.poller.ids = none) :
    Sound { s with poller := .polling, log := .sent s.acks :: s.log } := by
  refine ⟨?_, nofun, fun _ => h.held hids, fun id hid => (h.heard id hid).cons _, ?_, h.sent⟩
  · intro hun
    exact (h.due hun).of_poller rfl rfl hids.symm
  · rintro acks ⟨⟩
    exact ⟨h.heard, h.held hids⟩

theorem Sound.answer (h : s.Sound) (hids : s.poller.ids = none) (ids : List String) :
    Sound { s with poller := .decoded ids, log := .answered ids :: s.log } := by
  refine ⟨?_, ?_, nofun, fun id hid => (h.heard id hid).cons _, ⟨nofun, h.sent⟩⟩
  · rintro (hne | hun)
    · exact Or.inr (Or.inr ⟨ids, hne, rfl⟩)
    · rcases h.due hun with hkick | hrefresh | ⟨ids', -, heq⟩
      · exact Or.inl hkick
      · exact Or.inr (Or.inl hrefresh)
      · exact absurd (hids.symm.trans heq) (by simp)
  · intro ids' heq
    exact Option.some.inj heq

theorem Sound.fetch (h : s.Sound) :
    Sound { s with registry := .fetching, log := .fetchStarted :: s.log } :=
  ⟨False.elim, h.decoded, h.held, fun id hid => (h.heard id hid).cons _, ⟨nofun, h.sent⟩⟩

/-- `Registry.Run` goes on from where it is not before `Fetch`. -/
theorem Sound.proceed (h : s.Sound) (hregistry : s.registry ≠ .refresh) (r : RegistryAt) :
    Sound { s with registry := r } := by
  refine h.frame rfl rfl rfl ?_
  rintro (hkick | hrefresh | hids)
  · exact Or.inl hkick
  · exact absurd hrefresh hregistry
  · exact Or.inr (Or.inr hids)

/-- Leaving the `select` towards `Fetch`, with or without a token. -/
theorem Sound.refresh (h : s.Sound) (kick : Mailbox Unit) :
    Sound { s with registry := .refresh, kick := kick } :=
  h.frame rfl rfl rfl fun _ => Or.inr (Or.inl rfl)

/-- A step that is taken only where its loop is at it. -/
theorem Sound.guarded (h : s.Sound) {c : Prop} [Decidable c] (hstep : c → s'.Sound) :
    (if c then s' else s).Sound := by
  split
  · rename_i hc
    exact hstep hc
  · exact h

theorem Sound.step (h : s.Sound) (l : Label) : (s.step l).Sound := by
  have hids {p : PollerAt} (hat : s.poller = p) (hp : p.ids = none) : s.poller.ids = none :=
    hat ▸ hp
  cases l with
  | setup url =>
      refine h.guarded fun hat => ?_
      cases url with
      | none => exact h.fail (hids hat.1 rfl)
      | some url => exact h.frame rfl rfl rfl fun hdue => hdue.of_poller rfl rfl rfl
  | request sent =>
      refine h.guarded fun hat => ?_
      split
      · exact h.request (hids hat.1 rfl)
      · exact h.fail (hids hat.1 rfl)
  | answer sets =>
      refine h.guarded fun hat => ?_
      cases sets with
      | none => exact h.fail (hids hat rfl)
      | some ids => exact h.answer (hids hat rfl) ids
  | deliver =>
      simp only [System.step]
      split
      · rename_i ids hat
        exact h.deliver (by rw [hat]; rfl)
      · exact h
  | pollTick => exact h.guarded fun hat => h.move (hids hat rfl) rfl s.pollURL
  | pollDone => exact h.guarded fun hat => h.move (hids hat.1 rfl) rfl s.pollURL
  | fetch => exact h.guarded fun _ => h.fetch
  | fetched ok => exact h.guarded fun hat => h.proceed (by rw [hat]; decide) _
  | onList => exact h.guarded fun hat => h.proceed (by rw [hat]; decide) _
  | refreshTick => exact h.guarded fun _ => h.refresh s.kick
  | kicked => exact h.guarded fun _ => h.refresh s.kick.receive
  | refreshDone => exact h.guarded fun hat => h.proceed (by rw [hat.1]; decide) _
  | cancel => exact h.frame rfl rfl rfl fun hdue => hdue.of_poller rfl rfl rfl

theorem sound_start : start.Sound := ⟨False.elim, nofun, nofun, nofun, trivial⟩

theorem sound_run (labels : List Label) : (run step start labels).Sound :=
  run_invariant Sound (fun _ l h => h.step l) sound_start labels

end System

/-- In every state of the two loops: if an event has been received and no fetch
has started since, the channel holds a token, `Registry.Run` is before `Fetch`,
or the poller is about to send the token for a decoded answer. Every id that was
sent as an ack had been received, and a kick placed or found pending after that.
Every id of an answer is in the ack list of each request up to the one that is
answered next. -/
theorem events_heard_and_acknowledged (labels : List Label) :
    let s := run System.step start labels
    (∀ newer ids older, s.log = newer ++ .answered ids :: older → ids ≠ [] →
      .fetchStarted ∉ newer →
      s.kick.slot.isSome ∨ s.registry = .refresh ∨ ∃ ids, ids ≠ [] ∧ s.poller = .decoded ids) ∧
    (∀ newer acks older, s.log = newer ++ .sent acks :: older → ∀ id ∈ acks, Heard id older) ∧
    ∀ newer acks between ids older,
      s.log = newer ++ .sent acks :: (between ++ .answered ids :: older) →
      (∀ ids', .answered ids' ∉ between) → ∀ id ∈ ids, id ∈ acks := by
  intro s
  have h : s.Sound := System.sound_run labels
  refine ⟨?_, ?_, ?_⟩
  · intro newer ids older hlog hids hnewer
    have hun : Unfetched s.log := hlog ▸ unfetched_append hids hnewer
    rcases h.due hun with hkick | hrefresh | ⟨ids', hne, heq⟩
    · exact Or.inl hkick
    · exact Or.inr (Or.inl hrefresh)
    · refine Or.inr (Or.inr ⟨ids', hne, ?_⟩)
      cases hat : s.poller with
      | decoded ids'' =>
          rw [hat] at heq
          rw [Option.some.inj heq]
      | _ =>
          rw [hat] at heq
          exact absurd heq (by simp [PollerAt.ids])
  · intro newer acks older hlog
    exact (Throughout.of_append (hlog ▸ h.sent) acks rfl).1
  · intro newer acks between ids older hlog hbetween id hid
    refine (Throughout.of_append (hlog ▸ h.sent) acks rfl).2 id ?_
    rwa [lastAnswer_append hbetween]

/-- An answer with an event has been decoded, and `Registry.Run` waits in its
`select` with no token in the channel. -/
theorem decoded_event_not_yet_kicked :
    let s := run System.step start
      [.fetch, .fetched true, .onList, .setup (some "/poll"), .request true, .answer (some ["e1"])]
    s.log = [.answered ["e1"], .sent [], .fetchStarted] ∧ s.kick.slot = none ∧
      s.registry = .selecting := by
  decide

end Claimward.Ssfpoll
