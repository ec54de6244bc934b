import Tpf3Mp.Agent.Ahead
import Tpf3Mp.Server.RoomPace
import Tpf3Mp.Server.SaveRuns

/-!
A room, one of its members' bridge and game, and the channels of their connection. Progress says nothing
of the stream it is about, so the room takes for progress in a world it has just offered what the member
reported of the world before.
-/

namespace Tpf3Mp.Agent
open Codec Proto Tpf3Mp.Bridge List
open Server (Instant Duration Room RoomCommand Output TurnFeed Oracle Rewrite Write Member)
open Server.Room (steady plainSpec plainPlayer plainContent plainWorld)

inductive Arrival where
  | stream (start : TurnStart)
  | frame (bytes : Bytes)
  deriving DecidableEq

namespace Arrival

def start : Arrival → Option TurnStart
  | .stream start => some start
  | .frame _ => none

/-- What the client makes of it. A frame that is no turn ends the connection. -/
def event : Arrival → Option ClientEvent
  | .stream start => some (.turnStream start)
  | .frame bytes => (decodeTurn bytes).map .turn

end Arrival

/-- `write_turns`: what a room's outputs put on a connection's streams. Frames outside a stream are
not written. -/
def carry (player : PlayerId) (link : UInt64) : Bool → List Output → List Arrival
  | _, [] => []
  | streaming, .turn player' link' feed :: rest =>
    if player' = player ∧ link' = link then
      match feed with
      | .opened start backlog => .stream start :: backlog.map .frame ++ carry player link true rest
      | .frame bytes => (if streaming then [.frame bytes] else []) ++ carry player link streaming rest
      | .close => carry player link false rest
    else carry player link streaming rest
  | streaming, _ :: rest => carry player link streaming rest

theorem carry_append (player : PlayerId) (link : UInt64) (streaming : Bool) (out more : List Output) :
    ∃ streaming', carry player link streaming (out ++ more) =
      carry player link streaming out ++ carry player link streaming' more := by
  induction out generalizing streaming with
  | nil => exact ⟨streaming, rfl⟩
  | cons output out ih =>
    cases output with
    | turn player' link' feed =>
      simp only [cons_append, carry]
      split
      · cases feed with
        | opened start backlog =>
          obtain ⟨streaming', same⟩ := ih true
          exact ⟨streaming', by simp only [same, append_assoc, cons_append]⟩
        | frame bytes =>
          obtain ⟨streaming', same⟩ := ih streaming
          exact ⟨streaming', by simp only [same, append_assoc]⟩
        | close => exact ih false
      · exact ih streaming
    | _ => exact ih streaming

theorem carry_plain {player : PlayerId} {link : UInt64} {more : List Output}
    (plain : ∀ output ∈ more, ¬ output.Opens player link) (streaming : Bool) :
    ∀ arrival ∈ carry player link streaming more, arrival.start = none := by
  induction more generalizing streaming with
  | nil => intro arrival none; cases none
  | cons output more ih =>
    have rest := ih fun other later => plain other (mem_cons_of_mem _ later)
    have first := plain output mem_cons_self
    cases output with
    | turn player' link' feed =>
      simp only [carry]
      split
      · next same =>
        cases feed with
        | opened start backlog => exact absurd same first
        | frame bytes =>
          intro arrival member
          rcases mem_append.mp member with here | later
          · split at here
            · rw [mem_singleton.mp here]
              rfl
            · cases here
          · exact rest streaming arrival later
        | close => exact rest false
      · exact rest streaming
    | _ => exact rest streaming

def GameMessage.command (player : PlayerId) (link : UInt64) : GameMessage → RoomCommand
  | .intent clientSeq payload => .intent player (.ofNat clientSeq) payload
  | .progress step => .progress player link step
  | .checkpoint step lanes => .checkpoint player link step lanes
  | .saved event lanes world => .saved player link event lanes world

def reportsOn (player : PlayerId) (link : UInt64) : RoomCommand → Bool
  | .progress player' link' _ | .checkpoint player' link' _ _ | .saved player' link' _ _ _ =>
    player' = player ∧ link' = link
  | _ => false

structure Joint (σ γ : Type) where
  room : Room σ
  play : Play γ
  player : PlayerId
  link : UInt64
  /-- How much of the connection's turn streams the bridge has heard. -/
  heard : Nat
  /-- How many of the game's messages the server has read. -/
  taken : Nat

def offstage {γ : Type} : Scope γ
  | _, .hear (.turnStream _) | _, .hear (.turn _) => False
  | _, _ => True

namespace Play
variable {γ : Type}

def hear (p : Play γ) (now : Instant) (event : ClientEvent) (away : Bool)
    (ending : Option (Except BridgeFault BridgeEnd)) : Play γ :=
  { after { p with era := p.era + (p.bridge.replaces event).toNat } (p.bridge.onEvent now event)
      { era := p.era, number := 0 } with away, ending }

end Play

namespace Joint
variable {σ γ : Type}

def arrivals (j : Joint σ γ) : List Arrival := carry j.player j.link false j.room.out

/-- The streams the room opened that the bridge has not heard of. -/
def unheard (j : Joint σ γ) : List TurnStart := (j.arrivals.drop j.heard).filterMap Arrival.start

/-- One step of the room, of the member's side, or of a channel. `timing` says which of the game's
messages the room takes when, `care` what the bridge hears when. -/
inductive Step (game : Game γ) (care : Scope γ) (timing : Joint σ γ → Passed → Prop) (j : Joint σ γ) :
    Joint σ γ → Prop where
  | handles (o : Oracle) (now : Instant) (command : RoomCommand) (live : j.room.closed = false)
    (other : reportsOn j.player j.link command = false) :
    Step game care timing j { j with room := (j.room.handle o now command).1 }
  | saves (o : Oracle) (now : Instant) (live : j.room.closed = false) :
    Step game care timing j { j with room := j.room.tickSaves o now }
  | seals (o : Oracle) (now : Instant) (live : j.room.closed = false) :
    Step game care timing j { j with room := j.room.tickSeal o now }
  | compacts (done : Rewrite) (writes : Nat → Write) (renamed : Bool) (live : j.room.closed = false) :
    Step game care timing j { j with room := j.room.finishCompaction done writes renamed }
  | takes (o : Oracle) (now : Instant) {report : Passed} (front : j.play.passed[j.taken]? = some report)
    (live : j.room.closed = false) (timely : timing j report) :
    Step game care timing j { j with
      room := (j.room.handle o now (GameMessage.command j.player j.link report.message)).1
      taken := j.taken + 1 }
  -- The server reads a message it has no use for or no tokens left for.
  | drops {report : Passed} (front : j.play.passed[j.taken]? = some report) :
    Step game care timing j { j with taken := j.taken + 1 }
  | hears (now : Instant) {arrival : Arrival} {event : ClientEvent} {away : Bool}
    {ending : Option (Except BridgeFault BridgeEnd)} (next : j.arrivals[j.heard]? = some arrival)
    (read : arrival.event = some event) (here : j.play.away = false) (live : j.play.ending = none)
    (space : j.play.bridge.outbox.isFull = false) (meant : care j.play (.hear event))
    (goes : Goes (j.play.bridge.onEvent now event).result away ending) :
    Step game care timing j { j with play := j.play.hear now event away ending, heard := j.heard + 1 }
  -- A connection that was lost is not taken up again.
  | plays {q : Play γ} (moved : Play.Step game offstage j.play q) (stays : j.play.away = false ∨ q.away = true) :
    Step game care timing j { j with play := q }

/-- The states of a connection that begins with any room and any bridge, on which nothing was sent yet. -/
inductive Reaches (game : Game γ) (care : Scope γ) (timing : Joint σ γ → Passed → Prop) : Joint σ γ → Prop where
  | start {r₀ room : Room σ} {first : Nat} {before : List Bytes} {play : Play γ} {player : PlayerId} {link : UInt64}
    (begins : Room.Begins r₀ first before) (runs : Room.Runs r₀ room)
    (unused : ∀ feed, .turn player link feed ∉ room.out) (played : Play.Reaches game care play) :
    Reaches game care timing { room, play, player, link, heard := 0, taken := play.passed.length }
  | step {j k : Joint σ γ} (before : Reaches game care timing j) (moved : Step game care timing j k) :
    Reaches game care timing k

/-- Progress is taken only in the era it was sent in, with no stream on its way to the bridge. -/
def timely (j : Joint σ γ) (report : Passed) : Prop :=
  ∀ step, report.message = .progress step → report.era = j.play.era ∧ j.unheard = []

/-- Whom the room follows reported that step in the present era. -/
structure Paced (j : Joint σ γ) : Prop where
  streams : ∃ first before, j.room.Streams first before
  follows : ∀ step, j.room.Follows j.player j.link step → j.unheard = [] ∧
    ∃ report ∈ j.play.passed, report.message = .progress step ∧ report.era = j.play.era

variable {game : Game γ}

theorem unheard_plain {j : Joint σ γ} {room : Room σ} {more : List Output} (out : room.out = j.room.out ++ more)
    (plain : ∀ output ∈ more, ¬ output.Opens j.player j.link) (heard : j.unheard = []) (taken : Nat) :
    unheard { j with room, taken } = [] := by
  obtain ⟨streaming, same⟩ := carry_append j.player j.link false j.room.out more
  show ((carry j.player j.link false room.out).drop j.heard).filterMap Arrival.start = []
  rw [out, same, drop_append, filterMap_append]
  refine append_eq_nil_iff.mpr ⟨heard, filterMap_eq_nil_iff.mpr fun arrival member => ?_⟩
  exact carry_plain plain streaming arrival (mem_of_mem_drop member)

theorem Paced.tame {j : Joint σ γ} {room : Room σ} (paced : j.Paced)
    (streams : ∃ first before, room.Streams first before) (tame : Room.Tame j.player j.link j.room room) (taken : Nat) :
    Paced { j with room, taken } := by
  obtain ⟨more, out, kept⟩ := tame
  refine ⟨streams, fun step follows => ?_⟩
  obtain ⟨before, plain⟩ := kept step follows
  obtain ⟨heard, reported⟩ := paced.follows step before
  exact ⟨unheard_plain out plain heard taken, reported⟩

theorem Paced.reported {j : Joint σ γ} {sender : PlayerId} {link : UInt64} {step : Nat} (paced : j.Paced) (o : Oracle)
    (now : Instant) (live : j.room.closed = false) (taken : Nat)
    (own : sender = j.player → link = j.link → j.unheard = [] ∧
      ∃ report ∈ j.play.passed, report.message = .progress step ∧ report.era = j.play.era) :
    Paced { j with room := (j.room.handle o now (.progress sender link step)).1, taken } := by
  obtain ⟨first, before, streams⟩ := paced.streams
  refine ⟨⟨first, before, streams.step (.handled o now _ live)⟩, fun step' follows => ?_⟩
  obtain ⟨more, out, plain, kept⟩ := Room.progress_follows j.player j.link now sender link step
  rcases kept step' follows with before | ⟨player, link, rfl⟩
  · obtain ⟨heard, reported⟩ := paced.follows step' before
    exact ⟨unheard_plain out plain heard taken, reported⟩
  · obtain ⟨heard, reported⟩ := own player link
    exact ⟨unheard_plain out plain heard taken, reported⟩

end Joint

namespace Play
variable {γ : Type} {game : Game γ}

theorem Step.offstage {p q : Play γ} (moved : Step game offstage p q) :
    q.era = p.era ∧ ∀ report ∈ p.passed, report ∈ q.passed := by
  have whole : ∀ report ∈ p.passed, report ∈ p.passed := fun _ member => member
  cases moved with
  | calls here live call goes =>
    have after {q : Play γ} {o : Outcome} {mark : Mark} (passed : q.passed = p.passed) :
        ∀ report ∈ p.passed, report ∈ (q.after o mark).passed := by
      intro report member
      rw [← passed] at member
      exact mem_append_left _ member
    cases call with
    | hears event now space meant =>
      have stays : p.bridge.replaces event = false := by
        cases event with
        | turnStream start => cases meant
        | _ => rfl
      refine ⟨?_, after rfl⟩
      show p.era + (p.bridge.replaces event).toNat = p.era
      rw [stays]
      rfl
    | _ => exact ⟨rfl, after rfl⟩
  | _ => exact ⟨rfl, whole⟩

theorem Step.answered {p q : Play γ} (moved : Step game Agent.offstage p q) : Step game loadsAnswered p q := by
  refine moved.mono fun p input meant => ?_
  cases input with
  | read message => trivial
  | hear event =>
    intro replaces
    cases event with
    | turnStream start => cases meant
    | _ => cases replaces

end Play

namespace Joint
variable {σ γ : Type} {game : Game γ}

theorem Paced.heard {j : Joint σ γ} {arrival : Arrival} {event : ClientEvent} {away : Bool}
    {ending : Option (Except BridgeFault BridgeEnd)} (paced : j.Paced) (now : Instant)
    (next : j.arrivals[j.heard]? = some arrival) (read : arrival.event = some event) :
    Paced { j with play := j.play.hear now event away ending, heard := j.heard + 1 } := by
  refine ⟨paced.streams, fun step follows => ?_⟩
  obtain ⟨heard, report, member, message, era⟩ := paced.follows step follows
  have split : j.arrivals.drop j.heard = arrival :: j.arrivals.drop (j.heard + 1) := by
    obtain ⟨inside, rfl⟩ := List.getElem?_eq_some_iff.mp next
    exact drop_eq_getElem_cons inside
  rw [unheard, split, filterMap_cons] at heard
  -- The stream the room last opened was heard before, so this is no stream.
  cases arrival with
  | stream start => cases heard
  | frame bytes =>
    obtain ⟨turn, _, rfl⟩ := Option.map_eq_some_iff.mp read
    exact ⟨heard, report, mem_append_left _ member, message, era⟩

theorem Paced.step {j k : Joint σ γ} (paced : j.Paced) (moved : Step game Play.loadsAnswered timely j k) : k.Paced := by
  obtain ⟨first, before, streams⟩ := paced.streams
  cases moved with
  | handles o now command live other =>
    cases report : Room.reportOf command with
    | none =>
      exact paced.tame ⟨_, _, streams.step (.handled o now _ live)⟩ (Room.handle_tame now live report streams) j.taken
    | some reported =>
      cases command with
      | progress sender link step =>
        refine paced.reported o now live j.taken fun player same => ?_
        simp [reportsOn, player, same] at other
      | _ => cases report
  | saves o now live =>
    exact paced.tame ⟨_, _, streams.step (.saved o now live)⟩ (Room.tickSaves_tame now live streams) j.taken
  | seals o now live =>
    exact paced.tame ⟨_, _, streams.step (.sealed o now live)⟩ (Room.tickSeal_tame now streams) j.taken
  | compacts done writes renamed live =>
    exact paced.tame ⟨_, _, streams.step (.compacted done writes renamed live)⟩
      (Room.finishCompaction_tame done writes renamed)
      j.taken
  | @takes o now report front live timely =>
    cases message : report.message with
    | progress step =>
      refine paced.reported o now live (j.taken + 1) fun _ _ => ?_
      obtain ⟨era, heard⟩ := timely step message
      exact ⟨heard, report, mem_of_getElem? front, message, era⟩
    | _ => exact paced.tame ⟨_, _, streams.step (.handled o now _ live)⟩ (Room.handle_tame now live rfl streams) _
  | drops front => exact ⟨paced.streams, paced.follows⟩
  | hears now next read here live space meant goes => exact paced.heard now next read
  | plays moved stays =>
    obtain ⟨era, passed⟩ := moved.offstage
    refine ⟨paced.streams, fun step follows => ?_⟩
    obtain ⟨heard, report, member, message, same⟩ := paced.follows step follows
    exact ⟨heard, report, passed report member, message, same.trans era.symm⟩

theorem streaming_used {room : Room σ} {first : Nat} {before : List Bytes} {member : Member} {link : UInt64}
    (streams : room.Streams first before) (seated : member ∈ room.members) (streaming : member.streaming = true)
    (linked : member.link = some link) : ∃ feed, .turn member.player link feed ∈ room.out := by
  obtain ⟨link', start, frames, linked', got, _⟩ := streams.delivered.streams member seated streaming
  cases linked.symm.trans linked'
  by_contra unused
  have silent : ∀ out : List Output, (∀ feed, .turn member.player link feed ∉ out) →
      ∀ got, out.foldl (Server.channelStep member.player link) got = got := by
    intro out
    induction out with
    | nil => exact fun _ _ => rfl
    | cons output out ih =>
      intro unused got
      rw [foldl_cons, ih fun feed later => unused feed (mem_cons_of_mem _ later)]
      cases output with
      | turn player' link' feed =>
        apply if_neg
        rintro ⟨rfl, rfl⟩
        exact unused feed mem_cons_self
      | _ => rfl
  have empty := silent room.out (not_exists.mp unused) none
  rw [Server.channel, empty] at got
  cases got

theorem Reaches.paced {j : Joint σ γ} (reached : Reaches game Play.loadsAnswered timely j) :
    j.Paced ∧ Play.Reaches game Play.loadsAnswered j.play := by
  induction reached with
  | start begins runs unused played =>
    have streams := begins.streams.runs runs
    refine ⟨⟨⟨_, _, streams⟩, fun step follows => ?_⟩, played⟩
    obtain ⟨member, seated, follows⟩ := follows
    obtain ⟨feed, sent⟩ := streaming_used streams seated follows.streaming follows.linked
    rw [follows.player] at sent
    exact absurd sent (unused feed)
  | step before moved ih =>
    refine ⟨ih.1.step moved, ?_⟩
    cases moved with
    | hears now next read here live space meant goes =>
      exact ih.2.step (.calls here live (.hears _ now space meant) goes)
    | plays moved stays => exact ih.2.step moved.answered
    | _ => exact ih.2

/-- As long as no progress is taken that was sent before the bridge heard the room's newest stream, and
no load is overtaken, whomever the room follows has loaded the world that stream goes on from, and has
run every step up to the one the room follows it at. -/
theorem followed_in_current_world {j : Joint σ γ} {member : Member} {step : Nat}
    (reached : Reaches game Play.loadsAnswered timely j) (seated : member ∈ j.room.members)
    (own : member.player = j.player) (linked : member.link = some j.link) (streaming : member.streaming = true)
    (following : member.pace = .following step) :
    j.unheard = [] ∧ j.play.running = j.play.era ∧
      ∀ earlier, 0 < earlier → earlier ≤ step → earlier < j.play.session.gate.nextStep := by
  obtain ⟨paced, played⟩ := reached.paced
  obtain ⟨heard, report, member, message, era⟩ := paced.follows step ⟨member, seated, own, linked, streaming, following⟩
  obtain ⟨running, low, _⟩ := (played.reached.passed report member).step era step message
  refine ⟨heard, running, fun earlier positive within => ?_⟩
  unfold Session.reached at low
  omega

def sharedRoom : Room Unit :=
  .new { plainSpec with
    settings := { plainSpec.settings with checkpointInterval := 1 }
    env := { plainSpec.env with snapshots := some { every := Duration.ofSecs 60, minGap := Duration.ofSecs 10 } } }
    (plainPlayer 1) 0 { log := none, compacting := none }

def startShared : List RoomCommand :=
  [.join (plainPlayer 2) (.fill 32 0) none none none,
    .declareContent (plainPlayer 1).player plainContent, .declareContent (plainPlayer 2).player plainContent,
    .setReady (plainPlayer 1).player true, .setReady (plainPlayer 2).player true, .start (plainPlayer 1).player,
    .progress (plainPlayer 1).player 1 0]

def keepSave (event : Nat) (world : SavedWorld) : List RoomCommand :=
  [.saved (plainPlayer 1).player 1 event [] (some world),
    .uploaded (plainPlayer 1).player world.snapshot (.ok { id := world.snapshot, totalSize := world.size })]

def askingRoom : Room Unit := (sharedRoom.after 0 startShared).tickSaves steady (Duration.ofSecs 1)

def offeringRoom : Room Unit := askingRoom.after (Duration.ofSecs 1) (keepSave 3 plainWorld)

def offeredStream : TurnStart where
  room := plainSpec.id
  rules := plainSpec.rules
  nextTurn := 2
  nextEvent := 4
  sealedThrough := 0
  stepsPerSecond := 5
  checkpointInterval := 1
  history := 7
  world := some { snapshot := plainWorld.snapshot, size := plainWorld.size }

theorem offered : (carry (plainPlayer 2).player 1 false offeringRoom.out)[0]? = some (.stream offeredStream) := by
  decide +kernel

section Connection
variable {timing : Joint Unit Unit → Passed → Prop} {room : Room Unit} {play : Play Unit} {heard taken : Nat}

def Comes (timing : Joint Unit Unit → Passed → Prop) (room : Room Unit) (play : Play Unit) (heard taken : Nat) : Prop :=
  Reaches Play.plainGame Play.loadsAnswered timing ⟨room, play, (plainPlayer 2).player, 1, heard, taken⟩

theorem Comes.commands {now : Instant} {commands : List RoomCommand} (comes : Comes timing room play heard taken)
    (live : ∀ count < commands.length, (room.after now (commands.take count)).closed = false)
    (other : ∀ command ∈ commands, reportsOn (plainPlayer 2).player 1 command = false) :
    Comes timing (room.after now commands) play heard taken := by
  induction commands generalizing room with
  | nil => exact comes
  | cons command commands ih =>
    have first : Comes timing (room.handle steady now command).1 play heard taken :=
      comes.step (.handles steady now command (live 0 (Nat.succ_pos _)) (other command mem_cons_self))
    refine ih first (fun count short => live (count + 1) (Nat.succ_lt_succ short)) fun command later => ?_
    exact other command (mem_cons_of_mem _ later)

theorem Comes.saves (now : Instant) (comes : Comes timing room play heard taken) (live : room.closed = false) :
    Comes timing (room.tickSaves steady now) play heard taken := comes.step (.saves steady now live)

theorem Comes.seals (now : Instant) (comes : Comes timing room play heard taken) (live : room.closed = false) :
    Comes timing (room.tickSeal steady now) play heard taken := comes.step (.seals steady now live)

theorem Comes.plays {next : Play Unit} (comes : Comes timing room play heard taken)
    (moved : Play.Step Play.plainGame offstage play next) (here : play.away = false) :
    Comes timing room next heard taken :=
  comes.step (.plays moved (.inl here))

theorem Comes.hears {arrival : Arrival} {event : ClientEvent} (now : Instant)
    (comes : Comes timing room play heard taken)
    (next : (carry (plainPlayer 2).player 1 false room.out)[heard]? = some arrival) (read : arrival.event = some event)
    (here : play.away = false) (live : play.ending = none) (space : play.bridge.outbox.isFull = false)
    (meant : Play.loadsAnswered play (.hear event)) (goes : Goes (play.bridge.onEvent now event).result false none) :
    Comes timing room (play.hear now event false none) (heard + 1) taken :=
  comes.step (.hears now next read here live space meant goes)

theorem Comes.takes (now : Instant) (report : Passed) (comes : Comes timing room play heard taken)
    (front : play.passed[taken]? = some report) (live : room.closed = false)
    (timely : timing ⟨room, play, (plainPlayer 2).player, 1, heard, taken⟩ report) :
    Comes timing (room.handle steady now (GameMessage.command (plainPlayer 2).player 1 report.message)).1 play heard
      (taken + 1) := comes.step (.takes steady now front live timely)

def loadedPlay : Play Unit where
  bridge := { Bridge.new Play.plainOptions 0 0 with
    follower := some (.new offeredStream)
    playout := some (.new 5 0 0)
    hookReady := true
    begun := true
    world := .ready
    loaded := true
    progress := some 0
    reported := some 0
    attempts := 1
    received := some plainWorld.snapshot }
  stage := .playing
  session := { gate := .new 1, pendingLoad := none, checkpointInterval := 1, commands := 0 }
  world := ()
  down := []
  up := []
  jobs := []
  era := 1
  ordered := 1
  running := 1
  described := 1
  lost := false
  away := false
  ending := none
  passed := [{ message := .progress 0, mark := { era := 1, number := 0 }, era := 1 }]

theorem comes_loaded : Comes timing offeringRoom loadedPlay 1 0 := by
  have started : Comes timing sharedRoom (.begun Play.plainOptions 0 0 ()) 0 0 :=
    .start (.new _ _ _ _) .refl nofun (.start Play.plainOptions 0 0 ())
  have running : Comes timing (sharedRoom.after 0 startShared) _ 0 0 :=
    started.commands (by decide +kernel) (by decide +kernel)
  have asking : Comes timing askingRoom _ 0 0 := running.saves (Duration.ofSecs 1) (by decide +kernel)
  have offering : Comes timing offeringRoom _ 0 0 := asking.commands (by decide +kernel) (by decide +kernel)
  have attached := offering.plays (.attaches ⟨"", by decide⟩ rfl) rfl
  have greeted := attached.plays (.calls rfl rfl (.reads rfl trivial) .on) rfl
  have heard := greeted.hears 0 offered rfl rfl rfl rfl (fun _ => rfl) .on
  have first := heard.plays (.flushes rfl rfl rfl) rfl
  have second := first.plays (.flushes rfl rfl rfl) rfl
  have waiting := second.plays (.greets rfl rfl rfl) rfl
  have begins := waiting.plays (.begins rfl rfl rfl) rfl
  have fetched := begins.plays
    (.calls rfl rfl (.finishes [] (.fetched 1 (.ok ("", plainWorld.snapshot))) rfl rfl) .on) rfl
  have third := fetched.plays (.flushes rfl rfl rfl) rfl
  have handled := third.plays (.handles rfl rfl rfl rfl) rfl
  have loaded := handled.plays (.loads () rfl rfl rfl) rfl
  have read := loaded.plays (.calls rfl rfl (.reads rfl trivial) .on) rfl
  exact read

def followingRoom : Room Unit :=
  (offeringRoom.handle steady (Duration.ofSecs 1) (.progress (plainPlayer 2).player 1 0)).1

theorem followed_in_current_world_first : ∃ (j : Joint Unit Unit) (member : Member),
    Reaches Play.plainGame Play.loadsAnswered timely j ∧ member ∈ j.room.members ∧ member.player = j.player ∧
    member.link = some j.link ∧ member.streaming = true ∧ member.pace = .following 0 ∧
    j.unheard = [] ∧ j.play.running = j.play.era := by
  have following : Comes timely followingRoom loadedPlay 1 1 := comes_loaded.takes (Duration.ofSecs 1)
    { message := .progress 0, mark := { era := 1, number := 0 }, era := 1 } rfl (by decide +kernel)
    (fun _ _ => ⟨rfl, by decide +kernel⟩)
  obtain ⟨member, seated, own, linked, streaming, pace⟩ : ∃ member ∈ followingRoom.members,
      member.player = (plainPlayer 2).player ∧ member.link = some 1 ∧ member.streaming = true ∧
      member.pace = .following 0 := by decide +kernel
  obtain ⟨heard, running, _⟩ := followed_in_current_world following seated own linked streaming pace
  exact ⟨_, member, following, seated, own, linked, streaming, pace, heard, running⟩

def sealedRoom : Room Unit := followingRoom.tickSeal steady (Duration.ofSecs 2)

def sealedTurn : Turn := { number := 2, sealedThrough := 12, speed := .normal, events := [] }

theorem sealed_turn : ∃ arrival, (carry (plainPlayer 2).player 1 false sealedRoom.out)[1]? = some arrival ∧
    arrival.event = some (.turn sealedTurn) := by
  have decoded : ((carry (plainPlayer 2).player 1 false sealedRoom.out)[1]?.bind fun
      | .frame bytes => decodeTurn bytes
      | .stream _ => none) = some sealedTurn := by decide +kernel
  obtain ⟨arrival, next, found⟩ := Option.bind_eq_some_iff.mp decoded
  refine ⟨arrival, next, ?_⟩
  cases arrival with
  | stream start => cases found
  | frame bytes => exact congrArg (Option.map ClientEvent.turn) found

def divergedRoom : Room Unit :=
  (sealedRoom.handle steady (Duration.ofSecs 3) (.checkpoint (plainPlayer 2).player 1 1 [])).1.after (Duration.ofSecs 3)
    [.checkpoint (plainPlayer 1).player 1 1 [{ lane := 0, digest := ⟨replicate 32 1, rfl⟩ }],
      .progress (plainPlayer 1).player 1 12]

def laterWorld : SavedWorld := { snapshot := .fill 32 8, size := 1000 }

def rebasedRoom : Room Unit :=
  (divergedRoom.tickSaves steady (Duration.ofSecs 11)).after (Duration.ofSecs 12) (keepSave 4 laterWorld)

/-- A report the member made before it heard that its world is replaced has the room follow it as if it
had loaded the new one. -/
theorem late_progress_paces_new_world : ∃ (j : Joint Unit Unit) (member : Member),
    Reaches Play.plainGame Play.loadsAnswered (fun _ _ => True) j ∧ member ∈ j.room.members ∧
    member.player = j.player ∧ member.link = some j.link ∧ member.streaming = true ∧ member.pace = .following 1 ∧
    ∃ start ∈ j.unheard, start.world ≠ none ∧ start.sealedThrough = 12 := by
  have following : Comes (fun _ _ => True) followingRoom loadedPlay 1 1 := comes_loaded.takes (Duration.ofSecs 1)
    { message := .progress 0, mark := { era := 1, number := 0 }, era := 1 } rfl (by decide +kernel) trivial
  have sealed : Comes (fun _ _ => True) sealedRoom loadedPlay 1 1 :=
    following.seals (Duration.ofSecs 2) (by decide +kernel)
  obtain ⟨arrival, next, read⟩ := sealed_turn
  have heard := sealed.hears 0 next read rfl rfl rfl nofun .on
  have pumped := heard.plays (.pumps rfl rfl (show Bridge.pumped _ 20 0 = some _ from rfl)) rfl
  have flushed := pumped.plays (.flushes rfl rfl rfl) rfl
  have released := flushed.plays (.handles rfl rfl rfl rfl) rfl
  have ran := released.plays (.runs () rfl rfl rfl) rfl
  have moved := ran.plays (.calls rfl rfl (.reads rfl trivial) .on) rfl
  have checked := moved.plays (.calls rfl rfl (.reads rfl trivial) .on) rfl
  have reported := checked.plays (.calls rfl rfl (.reports 0) .on) rfl
  have compared := reported.takes (Duration.ofSecs 3)
    { message := .checkpoint 1 [], mark := { era := 1, number := 0 }, era := 1 } rfl (by decide +kernel) trivial
  have diverged : Comes (fun _ _ => True) divergedRoom _ 2 2 :=
    compared.commands (by decide +kernel) (by decide +kernel)
  have saving := diverged.saves (Duration.ofSecs 11) (by decide +kernel)
  have rebased : Comes (fun _ _ => True) rebasedRoom _ 2 2 := saving.commands (by decide +kernel) (by decide +kernel)
  have mistaken := rebased.takes (Duration.ofSecs 12)
    { message := .progress 1, mark := { era := 1, number := 0 }, era := 1 } rfl (by decide +kernel) trivial
  obtain ⟨member, seated, own, linked, streaming, pace⟩ : ∃ member ∈
      (rebasedRoom.handle steady (Duration.ofSecs 12) (.progress (plainPlayer 2).player 1 1)).1.members,
      member.player = (plainPlayer 2).player ∧ member.link = some 1 ∧ member.streaming = true ∧
      member.pace = .following 1 := by decide +kernel
  obtain ⟨start, unheard, world, later⟩ : ∃ start ∈ ((carry (plainPlayer 2).player 1 false
      (rebasedRoom.handle steady (Duration.ofSecs 12) (.progress (plainPlayer 2).player 1 1)).1.out).drop 2).filterMap
        Arrival.start, start.world ≠ none ∧ start.sealedThrough = 12 := by decide +kernel
  exact ⟨_, member, mistaken, seated, own, linked, streaming, pace, start, unheard, world, later⟩

end Connection

end Joint

end Tpf3Mp.Agent
