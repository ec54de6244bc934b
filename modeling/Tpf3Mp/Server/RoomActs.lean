import Tpf3Mp.Run.Basic
import Tpf3Mp.Server.RoomTick
import Mathlib.Logic.Relation

/-!
The elementary acts a room is made of, each with everything the room checked before it. Whatever a room
does but for ordering events, sealing turns and changing who sits in it is a sequence of acts.
-/

namespace Tpf3Mp.Server
open Codec Proto Data Relation List

/-- Everything of a game but what its log says may have changed. -/
def Game.Soft (g g' : Game) : Prop :=
  ∃ pacer speed lastTick rounds roundsClosedThrough saves,
    g' = { g with pacer, speed, lastTick, rounds, roundsClosedThrough, saves }

namespace Game.Soft

theorem refl (g : Game) : g.Soft g := ⟨_, _, _, _, _, _, rfl⟩

theorem trans {a b c : Game} (first : a.Soft b) (second : b.Soft c) : a.Soft c := by
  obtain ⟨_, _, _, _, _, _, rfl⟩ := first
  obtain ⟨_, _, _, _, _, _, rfl⟩ := second
  exact ⟨_, _, _, _, _, _, rfl⟩

end Game.Soft

/-- Which acts are meant besides the others: those on the way to a new save, those that take a member's
word for how far it has run, those on checkpoint rounds, and those that give a connection a seat. -/
structure Mode where
  saves : Bool
  reports : Bool
  judges : Bool := true
  seats : Bool := true

def Mode.all : Mode := { saves := true, reports := true }

def Mode.unsaving : Mode := { saves := false, reports := true }

/-- How a game's saves change: on the way to a new save, or only in whether one is wanted. -/
inductive Saves.Act (mode : Mode) : Saves → Saves → Prop where
  | wanted (s : Saves) (wanted : Bool) : Act mode s { s with wanted }
  | failed (s : Saves) (player : PlayerId) (busy : mode.saves = true) : Act mode s (s.failedUploader player)
  | reported {s : Saves} {event : Nat} {round : SaveRound} (report : SaveReport)
      (found : s.rounds.find event = some round) (busy : mode.saves = true) :
      Act mode s { s with rounds := s.rounds.insert event { round with reports := round.reports ++ [report] } }
  | decided {s : Saves} {event : Nat} {round : SaveRound} (found : s.rounds.find event = some round)
      (busy : mode.saves = true) : Act mode s { s with rounds := s.rounds.erase event }
  | asked (s : Saves) (upload : Upload) (busy : mode.saves = true) : Act mode s { s with upload := some upload }
  | received {s : Saves} {upload : Upload} (found : s.upload = some upload) (busy : mode.saves = true) :
      Act mode s { s with upload := some { upload with receiving := true } }
  | dropped {s : Saves} {upload : Upload} (found : s.upload = some upload) (busy : mode.saves = true) :
      Act mode s { s with upload := none }
  | promoted (s : Saves) (agreed : Agreed) (busy : mode.saves = true) :
      Act mode s { s with previous := s.current, current := some agreed }

namespace Room
variable {σ : Type}

def reconnected (member : Member) (new : NewMember) : Member :=
  { member with name := new.name, platform := new.platform, streaming := false, offered := none, link := some new.link }

def givenWorld (member : Member) (now : Instant) (offered : Option SnapshotId) (streamFrom : Nat) : Member :=
  { member with
    streaming := true
    rebased := match member.needs with
      | .rebase _ => some now
      | _ => member.rebased
    needs := .nothing
    offered
    pace := if member.pace = .loading then .loading else .catchingUp none
    streamFrom }

def resumedAt (member : Member) (new : NewMember) (streamFrom : Nat) (streaming : Bool) : Member :=
  { reconnected member new with pace := .catchingUp none, needs := .nothing, streamFrom, streaming }

def loading (member : Member) (needs : Needs) (streaming : Bool) : Member :=
  { member with pace := .loading, streamFrom := 1, needs, streaming }

inductive Act (mode : Mode) : Room σ → Room σ → Prop where
  | noted (r : Room σ) (passwordGuard : PasswordGuard) (unattendedSince : Option Instant) (calls : Nat) :
      Act mode r { r with passwordGuard, unattendedSince, calls }
  | told (r : Room σ) (player : PlayerId) (link : UInt64) (message : ServerMessage) :
      Act mode r (r.emit (.control player link message))
  | hungUp (r : Room σ) (player : PlayerId) (link : UInt64) (code : CloseCode) (reason : String) :
      Act mode r (r.emit (.closed player link code reason))
  | adjusted {r : Room σ} {index : Nat} {member : Member} {ready : Bool} {content : Option ContentFingerprint}
      {intents payloadBytes chats : TokenBucket} (seat : r.members[index]? = some member)
      (declared : r.phase = .lobby ∨ content = member.content) :
      Act mode r (r.setMember index { member with ready, content, intents, payloadBytes, chats })
  | unlinked {r : Room σ} {index : Nat} {member : Member} (seat : r.members[index]? = some member) :
      Act mode r (r.setMember index member.unlinked)
  | progressed {r : Room σ} {game : Game} {index : Nat} {member : Member} {link : UInt64} {step : Nat}
      {advanced : Instant} (running : r.phase = .running game) (seat : r.members[index]? = some member)
      (linked : member.link = some link) (within : step ≤ game.sealedThrough) (reports : mode.reports = true) :
      Act mode r (r.setMember index { member with
        pace := member.pace.next step (game.pacer.window game.speed) game.sealedThrough, advanced })
  | demoted {r : Room σ} {game : Game} (now : Instant) (running : r.phase = .running game) :
      Act mode r { r with members := r.members.map (demote game r.timeouts now) }
  | diverged {r : Room σ} {index : Nat} {member : Member} (step : Nat) (seat : r.members[index]? = some member)
      (settled : member.needs = .nothing) : Act mode r (r.setMember index { member with needs := .rebase step })
  | served {r : Room σ} {game : Game} {index : Nat} {member : Member} {link : UInt64} {agreed : Agreed}
      {start : TurnStart} {backlog : List Bytes} {streamFrom : Nat} (now : Instant) (running : r.phase = .running game)
      (current : game.saves.current = some agreed)
      (fed : game.feedFrom r.id r.settings r.rules agreed = .ok (.opened start backlog, streamFrom))
      (seat : r.members[index]? = some member) (linked : member.link = some link) :
      Act mode r ((r.emit (.turn member.player link (.opened start backlog))).setMember index
        (givenWorld member now (some agreed.id) streamFrom))
  | unserved {r : Room σ} {index : Nat} {member : Member} {link : UInt64} (seat : r.members[index]? = some member)
      (linked : member.link = some link) : Act mode r (r.setMember index { member with streaming := false })
  | returned {r : Room σ} {index : Nat} {member : Member} (new : NewMember) (lobby : r.phase = .lobby)
      (seat : r.members[index]? = some member) (seats : mode.seats = true) : Act mode r
        (r.setMember index (reconnected member new))
  | awaiting {r : Room σ} {game : Game} {index : Nat} {member : Member} (new : NewMember)
    (running : r.phase = .running game)
      (seat : r.members[index]? = some member) (seats : mode.seats = true) :
      Act mode r (r.setMember index { reconnected member new with pace := .catchingUp none, needs := .world })
  | resumed {r : Room σ} {game : Game} {index : Nat} {member : Member} {new : NewMember} {resume : Option Resume}
      {stream : Stream} (running : r.phase = .running game) (granted : game.streamAfter resume = .ok stream)
      (seat : r.members[index]? = some member) (same : member.player = new.player) (seats : mode.seats = true) :
      Act mode r ((r.emit (.turn member.player new.link
        (.opened (game.turnStart r.id r.settings r.rules stream none) stream.backlog))).setMember index
          (resumedAt member new stream.nextEvent true))
  | unresumed {r : Room σ} {game : Game} {index : Nat} {member : Member} (new : NewMember) (streamFrom : Nat)
      (running : r.phase = .running game) (seat : r.members[index]? = some member) (seats : mode.seats = true) :
      Act mode r (r.setMember index (resumedAt member new streamFrom false))
  | begun {r : Room σ} {game : Game} {index : Nat} {member : Member} {link : UInt64} {start : TurnStart}
      (running : r.phase = .running game) (unsealed : game.sealedThrough = 0)
      (covers : game.logFirstTurn ≤ start.nextTurn ∧ start.nextTurn = game.nextTurn) (worldless : start.world = none)
      (empty : game.log = []) (seat : r.members[index]? = some member) (linked : member.link = some link) :
      Act mode r ((r.emit (.turn member.player link (.opened start []))).setMember index
        (loading member .nothing true))
  | unbegun {r : Room σ} {game : Game} {index : Nat} {member : Member} (needs : Needs)
      (running : r.phase = .running game) (unsealed : game.sealedThrough = 0) (seat : r.members[index]? = some member) :
      Act mode r (r.setMember index (loading member needs false))
  | timed {r : Room σ} {game : Game} {speed : Speed} (running : r.phase = .running game)
      (within : speed.percent ≤ Speed.maximum.percent) : Act mode r (r.withGame { game with speed })
  | judged {r : Room σ} {game : Game} (rounds : SortedMap Nat Round) (roundsClosedThrough : Nat)
      (running : r.phase = .running game) (judges : mode.judges = true) :
      Act mode r (r.withGame { game with rounds, roundsClosedThrough })
  | kept {r : Room σ} {game : Game} {saves : Saves} (running : r.phase = .running game)
      (act : game.saves.Act mode saves) : Act mode r (r.withGame { game with saves })
  | ticked {r : Room σ} {game : Game} (now : Instant) (running : r.phase = .running game) :
      Act mode r (r.withGame { game with
        lastTick := now
        pacer := (game.pacer.advance (now - game.lastTick) game.speed (slowestPacer r.members) game.sealedThrough).2 })

abbrev Acts (mode : Mode) : Room σ → Room σ → Prop := ReflTransGen (Act mode)

section Lemmas
variable {r r' : Room σ} {o : Oracle} {mode : Mode}

theorem Acts.eq (acts : Acts mode r r') : ∃ members phase out calls passwordGuard unattendedSince,
    r' = { r with members, phase, out, calls, passwordGuard, unattendedSince } := by
  induction acts with
  | refl => exact ⟨_, _, _, _, _, _, rfl⟩
  | tail _ step ih =>
    obtain ⟨_, _, _, _, _, _, rfl⟩ := ih
    cases step <;> exact ⟨_, _, _, _, _, _, rfl⟩

theorem Acts.closed (acts : Acts mode r r') : r'.closed = r.closed := by
  obtain ⟨_, _, _, _, _, _, rfl⟩ := acts.eq
  rfl

variable {index : Nat} {game : Game} {member : Member}

theorem map_player_set {members : List Member} {member' : Member}
    (seat : members[index]? = some member) (same : member'.player = member.player) :
    (members.set index member').map Member.player = members.map Member.player := by
  obtain ⟨inside, rfl⟩ := List.getElem?_eq_some_iff.mp seat
  have inside' : index < (members.map Member.player).length := by simpa using inside
  rw [map_set, same, ← getElem_map Member.player]
  exact set_getElem_self inside'

theorem Acts.players (acts : Acts mode r r') : r'.members.map Member.player = r.members.map Member.player := by
  induction acts with
  | refl => rfl
  | tail _ step ih =>
    cases step with
    | adjusted seat | unlinked seat | progressed _ seat | diverged _ seat | served _ _ _ _ seat | unserved seat
    | returned _ _ seat | awaiting _ _ seat | resumed _ _ seat | unresumed _ _ _ seat | begun _ _ _ _ _ seat
    | unbegun _ _ _ seat =>
      refine Eq.trans ?_ ih
      exact map_player_set seat rfl
    | demoted now running =>
      rw [List.map_map, ← ih]
      refine map_congr_left fun member _ => ?_
      unfold Function.comp demote
      repeat' split
      all_goals rfl
    | _ => exact ih

theorem position_eq (r : Room σ) (player : PlayerId) :
    r.position player = (r.members.map Member.player).findIdx? fun other => other = player := by
  rw [findIdx?_map]
  rfl

theorem Acts.foldl {ι : Type} {act : Room σ → ι → Room σ} {P : Room σ → Prop} {items : List ι}
    (each : ∀ r, ∀ item ∈ items, P r → Acts mode r (act r item) ∧ P (act r item)) (start : P r) :
    Acts mode r (items.foldl act r) ∧ P (items.foldl act r) := by
  induction items generalizing r with
  | nil => exact ⟨.refl, start⟩
  | cons item items ih =>
    obtain ⟨first, next⟩ := each r item mem_cons_self start
    obtain ⟨rest, last⟩ := ih (fun r item member => each r item (mem_cons_of_mem _ member)) next
    exact ⟨first.trans rest, last⟩

theorem forMembers_acts {act : Room σ → Nat → Room σ} (each : ∀ r index, Acts mode r (act r index)) :
    Acts mode r (r.forMembers act) :=
  (Acts.foldl (P := fun _ => True) (fun r index _ _ => ⟨each r index, trivial⟩) trivial).1

theorem Acts.lobby (acts : Acts mode r r') (lobby : r.phase = .lobby) : r'.phase = .lobby := by
  induction acts with
  | refl => exact lobby
  | tail _ step ih =>
    cases step with
    | timed running | judged _ _ running | kept running | ticked _ running => rw [ih] at running; cases running
    | _ => exact ih

theorem Acts.running (acts : Acts mode r r') (running : r.phase = .running game) :
    ∃ game', r'.phase = .running game' ∧ game.Soft game' := by
  induction acts with
  | refl => exact ⟨game, running, .refl game⟩
  | tail _ step ih =>
    obtain ⟨game', running', soft⟩ := ih
    cases step with
    | timed here | judged _ _ here | kept here | ticked _ here =>
      cases running'.symm.trans here
      exact ⟨_, rfl, soft.trans ⟨_, _, _, _, _, _, rfl⟩⟩
    | _ => exact ⟨game', running', soft⟩

theorem seat_found {members : List Member} {position : Option Nat}
    (found : (position.bind fun index => members[index]?.map fun member => (index, member)) = some (index, member)) :
    position = some index ∧ members[index]? = some member := by
  obtain ⟨_, first, found⟩ := Option.bind_eq_some_iff.mp found
  obtain ⟨_, second, same⟩ := Option.map_eq_some_iff.mp found
  cases same
  exact ⟨first, second⟩

theorem linked_found {player : PlayerId} {link : UInt64}
    (found : r.linked player link = some index) (seat : r.members[index]? = some member) :
    member.player = player ∧ member.link = some link := by
  obtain ⟨inside, matched, _⟩ := findIdx?_eq_some_iff_getElem.mp found
  rw [getElem?_eq_getElem inside] at seat
  cases seat
  simpa using matched

theorem counted_acts (calls : Nat) : Act mode r { r with calls } := .noted r r.passwordGuard r.unattendedSince calls

theorem dropLink_acts (index : Nat) (slow : Bool) : Acts mode r (r.dropLink index slow) := by
  unfold dropLink
  split
  · exact .refl
  rename_i member seat
  split
  · exact .refl
  rename_i link _
  cases slow with
  | false => exact .single (.unlinked seat)
  | true =>
    exact .head (.hungUp r member.player link .slowConsumer "not reading fast enough") (.single (.unlinked seat))

theorem push_acts (index : Nat) (message : ServerMessage) : Acts mode r (r.push o index message) := by
  unfold push sendLinked
  split
  · exact .refl
  rename_i member seat
  split
  · exact .refl
  rename_i link _
  unfold trySend
  dsimp only
  by_cases sent : o.send r.calls = .done
  · rw [if_pos sent, if_pos sent]
    exact .head (counted_acts _) (.single (.told _ member.player link message))
  · rw [if_neg sent, if_neg sent]
    exact .head (counted_acts _) (dropLink_acts _ _)

theorem broadcastView_acts : Acts mode r (r.broadcastView o) := forMembers_acts fun _ index => push_acts index _

theorem feedFrom_opened {room : RoomId} {settings : RoomSettings} {rules : RulesName} {agreed : Agreed}
    {feed : TurnFeed} {streamFrom : Nat} (granted : game.feedFrom room settings rules agreed = .ok (feed, streamFrom)) :
    ∃ start backlog, feed = .opened start backlog := by
  obtain ⟨stream, _, granted⟩ := Run.bind_ok.mp granted
  cases granted
  exact ⟨_, _, rfl⟩

theorem serve_acts {now : Instant} {agreed : Agreed} {streamFrom : Nat} {feed : TurnFeed}
    (running : r.phase = .running game) (current : game.saves.current = some agreed)
    (fed : game.feedFrom r.id r.settings r.rules agreed = .ok (feed, streamFrom)) :
    Acts mode r (serve o now (some agreed.id) r (index, feed, streamFrom)) ∧
      (serve o now (some agreed.id) r (index, feed, streamFrom)).phase = .running game := by
  obtain ⟨start, backlog, rfl⟩ := feedFrom_opened fed
  unfold serve
  dsimp only
  split
  · exact ⟨.refl, running⟩
  rename_i member seat
  split
  · exact ⟨.refl, running⟩
  rename_i link linked
  unfold trySend
  dsimp only
  by_cases sent : o.send r.calls = .done
  · rw [if_neg (not_not.mpr sent), if_pos sent]
    exact ⟨.head (counted_acts _) (.single (.served now running current fed seat linked)), running⟩
  · rw [if_pos sent, if_neg sent]
    exact ⟨.head (counted_acts _) (.single (.unserved seat linked)), running⟩

variable (now : Instant)

theorem offerWorlds_acts : Acts mode r (r.offerWorlds o now) := by
  unfold offerWorlds
  split
  · exact .refl
  rename_i game running
  generalize r.members.any _ = waiting
  refine .head (.kept running (.wanted _ waiting)) ?_
  let marked : Game := { game with saves := { game.saves with wanted := waiting } }
  refine (Acts.foldl (r := r.withGame marked) (P := fun room => room.phase = .running marked ∧ room.id = r.id ∧
    room.settings = r.settings ∧ room.rules = r.rules) ?_ ⟨rfl, rfl, rfl, rfl⟩).1
  rintro room ⟨index, feed, streamFrom⟩ member ⟨here, id, settings, rules⟩
  obtain ⟨⟨_, _⟩, _, served⟩ := mem_filterMap.mp member
  dsimp only at served
  split at served
  · obtain ⟨_, served, same⟩ := Option.map_eq_some_iff.mp served
    cases same
    obtain ⟨agreed, filtered, granted⟩ := Option.bind_eq_some_iff.mp served
    have current : game.saves.current = some agreed := (Option.filter_eq_some_iff.mp filtered).1
    cases asked : game.feedFrom r.id r.settings r.rules agreed with
    | error _ => rw [asked] at granted; cases granted
    | ok found =>
      rw [asked] at granted
      cases granted
      have fed : marked.feedFrom room.id room.settings room.rules agreed = .ok (feed, streamFrom) := by
        rw [id, settings, rules]
        exact asked
      have served : Acts mode room (serve o now (some agreed.id) room (index, feed, streamFrom)) ∧ _ :=
        serve_acts here current fed
      rw [current, Option.map_some]
      refine ⟨served.1, served.2, ?_⟩
      obtain ⟨_, _, _, _, _, _, same⟩ := served.1.eq
      rw [same]
      exact ⟨id, settings, rules⟩
  · cases served

theorem rejoin_running {resume : Option Resume} {content : Option ContentFingerprint} {rejoin : Rejoin}
    (joined : r.rejoin resume content = .ok rejoin) :
    (r.phase = .lobby ∧ rejoin = .lobby) ∨ ∃ game, r.phase = .running game ∧ (rejoin = .world ∨
      ∃ stream, game.streamAfter resume = .ok stream ∧
        rejoin = .stream (.opened (game.turnStart r.id r.settings r.rules stream none) stream.backlog)) := by
  unfold Room.rejoin at joined
  split at joined
  · next lobby =>
    cases joined
    exact .inl ⟨lobby, rfl⟩
  rename_i game running
  refine .inr ⟨game, running, ?_⟩
  split at joined
  · cases joined
  split at joined
  · cases joined
    exact .inl rfl
  obtain ⟨_, resumed, same⟩ := Run.map_ok.mp joined
  cases same
  obtain ⟨stream, granted, opened⟩ := Run.bind_ok.mp resumed
  cases opened
  exact .inr ⟨stream, granted, rfl⟩

theorem replaceLink_acts (r : Room σ) (member : Member) (link : UInt64) :
    Acts mode r (r.replaceLink member link) ∧ ∃ out, r.replaceLink member link = { r with out } := by
  unfold replaceLink
  split
  · next old _ =>
    split
    · exact ⟨.single (.hungUp r member.player old .replaced "signed in on another connection"), _, rfl⟩
    · exact ⟨.refl, _, rfl⟩
  · exact ⟨.refl, _, rfl⟩

theorem takeOver_acts {new : NewMember} {resume : Option Resume}
    {content : Option ContentFingerprint} {rejoin : Rejoin} (seats : mode.seats = true)
    (seat : r.members[index]? = some member)
    (player : member.player = new.player) (joined : r.rejoin resume content = .ok rejoin) :
    Acts mode r (r.takeOver o index member new rejoin) := by
  have replaces : Acts mode r (r.replaceLink member new.link) ∧ _ := r.replaceLink_acts member new.link
  obtain ⟨acts, out, replaced⟩ := replaces
  unfold takeOver
  rw [replaced] at acts ⊢
  apply acts.trans
  rcases rejoin_running joined with ⟨lobby, rfl⟩ | ⟨game, running, rfl | ⟨stream, granted, rfl⟩⟩
  · exact .single (.returned new lobby seat seats)
  · exact .single (.awaiting new running seat seats)
  unfold trySend
  dsimp only
  by_cases sent : o.send r.calls = .done
  · rw [if_pos sent, ← player, decide_eq_true sent]
    exact .head (counted_acts (r.calls + 1))
      (.single (.resumed running granted seat player seats))
  · rw [if_neg sent, decide_eq_false sent]
    exact .head (counted_acts (r.calls + 1))
      (.single (.unresumed new _ running seat seats))

variable (player : PlayerId)

theorem setReady_acts (ready : Bool) : Acts mode r (r.setReady player ready).1 := by
  unfold setReady
  split
  · exact .refl
  · split
    · exact .refl
    · next found => exact .single (.adjusted (seat_found found).2 (.inr rfl))

theorem declareContent_acts (content : ContentFingerprint) : Acts mode r (r.declareContent player content).1 := by
  unfold declareContent
  split
  · exact .refl
  rename_i lobby
  split
  · exact .refl
  · next found => exact .single (.adjusted (seat_found found).2 (.inl lobby))

theorem setSpeed_acts (speed : Speed) : Acts mode r (r.setSpeed player speed).1 := by
  unfold setSpeed
  split
  · exact .refl
  split
  · exact .refl
  rename_i game running
  split
  · exact .refl
  · next within => exact .single (.timed running (UInt16.not_lt.mp within))

theorem chat_acts (text : ChatText) : Acts mode r (r.chat o now player text).1 := by
  unfold chat
  split
  · exact .refl
  rename_i index member found
  dsimp only
  have taken : Act mode r (r.setMember index { member with chats := (member.chats.take now 1).2 }) :=
    .adjusted (seat_found found).2 (.inr rfl)
  split
  · exact .head taken (forMembers_acts fun _ index => push_acts index _)
  · exact .single taken

theorem progress_acts (reports : mode.reports = true) (now : Instant) (player : PlayerId) (link : UInt64) (step : Nat) :
    Acts mode r (r.progress now player link step) := by
  unfold progress
  split
  · exact .refl
  rename_i game running
  split
  · exact .refl
  rename_i index member found
  obtain ⟨position, seat⟩ := seat_found found
  split
  · exact .head (.hungUp r player link .protocolViolation "progress beyond the frontier") (.single (.unlinked seat))
  · next within =>
    exact .single (.progressed running seat (linked_found position seat).2 (not_lt.mp within) reports)

theorem demoteStalled_acts : Acts mode r (r.demoteStalled now) := by
  unfold demoteStalled
  split
  · exact .refl
  · next game running => exact .single (.demoted now running)

theorem announce_acts (step : Nat) (notice : Divergence) : Acts mode r (announce o now step r notice) := by
  unfold announce
  dsimp only
  split
  · exact .refl
  rename_i index _
  have pushed : Acts mode r (r.push o index (.diverged step notice.2)) := push_acts index _
  split
  · exact pushed
  rename_i member seat
  split
  · next rests =>
    simp only [Bool.and_eq_true, beq_iff_eq] at rests
    exact .tail pushed (.diverged step seat rests.1.2)
  · exact pushed

theorem announceDivergence_acts (step : Nat) (notices : List Divergence) :
    Acts mode r (r.announceDivergence o now step notices) := by
  unfold announceDivergence
  split
  · exact .refl
  · exact (Acts.foldl (P := fun _ => True) (fun _ notice _ _ => ⟨announce_acts now step notice, trivial⟩)
      trivial).1.trans
      (offerWorlds_acts now)

def Judged (game game' : Game) : Prop := ∃ rounds roundsClosedThrough, game' = { game with rounds, roundsClosedThrough }

theorem closeRounds_judged {game' : Game} (judged : Judged game game') (steps : List Nat) :
    Judged game (steps.foldl Game.closeRound game') := by
  refine Run.foldl_preserves (fun other step judged => ?_) judged steps
  obtain ⟨_, _, rfl⟩ := judged
  exact ⟨_, _, rfl⟩

section
variable (judges : mode.judges = true)
include judges

theorem judged_acts {game' : Game} (running : r.phase = .running game) (judged : Judged game game') :
    Act mode r (r.withGame game') := by
  obtain ⟨rounds, closed, rfl⟩ := judged
  exact .judged rounds closed running judges

theorem checkpoint_acts (now : Instant) (player : PlayerId) (link : UInt64) (step : Nat)
    (lanes : List LaneDigest) : Acts mode r (r.checkpoint o now player link step lanes) := by
  unfold checkpoint
  split
  · exact .refl
  rename_i game running
  split
  · exact .refl
  dsimp only
  split
  · exact .refl
  split
  · exact .refl
  split
  · exact .refl
  · split
    · exact .refl
    · exact .head (judged_acts judges running (closeRounds_judged ⟨_, _, rfl⟩ _)) (announceDivergence_acts now step _)

theorem decideWaitingRounds_acts (now : Instant) : Acts mode r (r.decideWaitingRounds o now) := by
  unfold decideWaitingRounds
  split
  · exact .refl
  rename_i game running
  dsimp only
  split
  · exact .single (judged_acts judges running (closeRounds_judged ⟨_, _, rfl⟩ _))
  · exact .head (judged_acts judges running (closeRounds_judged (closeRounds_judged ⟨_, _, rfl⟩ _) _)) (Acts.foldl
      (P := fun _ => True) (fun _ entry _ _ => ⟨announceDivergence_acts now entry.1 entry.2, trivial⟩) trivial).1

end

section
variable (busy : mode.saves = true)
include busy

theorem promote_acts (now : Instant) (agreed : Agreed) : Acts mode r (r.promote o now agreed) := by
  unfold promote
  split
  · exact .refl
  · next game running => exact .head (.kept running (.promoted _ agreed busy)) (offerWorlds_acts now)

theorem askForUpload_acts (now : Instant) (point : SavePoint) (candidates : Candidates) :
    Acts mode r (r.askForUpload o now point candidates) := by
  induction candidates with
  | nil => exact .refl
  | cons candidate rest ih =>
    unfold askForUpload
    split
    · exact .refl
    rename_i game running
    split
    · exact promote_acts busy now _
    · split
      · exact ih
      · exact .head (.kept running (.asked _ _ busy)) (push_acts _ _)

theorem decideSave_acts (now : Instant) (event : Nat) : Acts mode r (r.decideSave o now event) := by
  unfold decideSave
  split
  · exact .refl
  rename_i game running
  split
  · exact .refl
  rename_i round found
  refine .head (.kept running (.decided found busy)) ?_
  exact (announceDivergence_acts now round.point.sealedThrough _).trans (askForUpload_acts busy now round.point _)

theorem saved_acts (now : Instant) (player : PlayerId) (link : UInt64) (event : Nat) (lanes : List LaneDigest)
    (world : Option SavedWorld) : Acts mode r (r.saved o now player link event lanes world) := by
  unfold saved
  split
  · exact .refl
  rename_i order member _
  split
  · exact .refl
  split
  · exact .refl
  rename_i game running
  split
  · exact .refl
  rename_i round found
  split
  · exact .refl
  dsimp only
  let report : SaveReport :=
    { report := { player, platform := member.platform, order, lanes := sortLanes lanes }, world }
  have act : Act mode r _ := .kept running (.reported report found busy)
  split
  · exact .head act (decideSave_acts busy now event)
  · exact .single act

theorem uploaded_acts (now : Instant) (player : PlayerId) (snapshot : SnapshotId) (result : Except String Manifest) :
    Acts mode r (r.uploaded o now player snapshot result) := by
  unfold uploaded
  split
  · exact .refl
  rename_i game running
  split
  · exact .refl
  rename_i upload found
  split
  · dsimp only
    split
    · exact .head (.kept running (.dropped found busy)) (promote_acts busy now _)
    · refine .head (.kept running (.dropped found busy)) (.head (.kept rfl (.failed _ player busy)) ?_)
      exact askForUpload_acts busy now upload.point upload.rest
  · exact .refl

theorem uploadStarts_acts (player : PlayerId) (link : UInt64) (snapshot : SnapshotId) :
    Acts mode r (r.uploadStarts player link snapshot).1 := by
  unfold uploadStarts
  split
  · exact .refl
  rename_i game running
  split
  · exact .refl
  rename_i upload found
  split
  · exact .single (.kept running (.received found busy))
  · exact .refl

end

theorem endUpload_acts (upload : Upload) : Acts mode r (r.endUpload upload) := by
  unfold endUpload
  split
  · exact .refl
  split
  · exact .refl
  rename_i index member found
  split
  · exact .refl
  · next link _ =>
    exact .head (.hungUp r upload.sender link .slowConsumer "the upload was too slow")
      (.single (.unlinked (seat_found found).2))

end Lemmas
end Room
end Tpf3Mp.Server
