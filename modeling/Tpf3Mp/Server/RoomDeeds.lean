import Tpf3Mp.Server.RoomActs

/-!
What a room's commands and ticks are made of: acts, and the few deeds that order events, seal turns,
seat or unseat players, begin the game, or end the room. Every deed keeps what the room checked
before it.
-/

namespace Tpf3Mp.Server
open Codec Proto Data Relation List

theorem Game.sealBatches_eq (frontier : Nat) (batches : List (List Event)) (g : Game) :
    ∃ nextTurn log logFirstTurn sealedBeforeLog logBytes, (sealBatches frontier batches g).1 =
      { g with nextTurn, log, logFirstTurn, sealedBeforeLog, logBytes } := by
  induction batches generalizing g with
  | nil => exact ⟨_, _, _, _, _, rfl⟩
  | cons events rest ih =>
    unfold sealBatches
    dsimp only
    split
    · exact ⟨_, _, _, _, _, rfl⟩
    generalize kept : g.keep _ = g'
    obtain ⟨_, _, _, _, _, same⟩ := ih g'
    split
    · next sealed =>
      rw [sealed] at same
      rw [same, ← kept]
      exact ⟨_, _, _, _, _, rfl⟩
    · next sealed =>
      rw [sealed] at same
      rw [same, ← kept]
      exact ⟨_, _, _, _, _, rfl⟩

theorem Game.sealPending_eq {frontier : Nat} {g g' : Game} {result : Except FrameError (List Bytes)}
    (sealed : g.sealPending frontier = (g', result)) :
    ∃ nextTurn log logFirstTurn sealedBeforeLog logBytes announcedSpeed, g' =
      { g with
        pending := [], nextTurn, log, logFirstTurn, sealedBeforeLog, logBytes, announcedSpeed
        sealedThrough := if result.toOption.isSome then frontier else g.sealedThrough } := by
  unfold sealPending at sealed
  obtain ⟨_, _, _, _, _, same⟩ := sealBatches_eq frontier (batches 0 [] g.pending) { g with pending := [] }
  split at sealed
  · next batched =>
    rw [batched] at same
    cases sealed
    dsimp only at same
    rw [same]
    exact ⟨_, _, _, _, _, _, rfl⟩
  · next batched =>
    rw [batched] at same
    cases sealed
    dsimp only at same
    rw [same]
    exact ⟨_, _, _, _, _, _, rfl⟩

theorem Game.save_eq {σ : Type} {g g' : Game} {rules : Ruleset σ} {state state' : σ}
    {result : Except FrameError (SavePoint × List Bytes)} (saved : g.save rules state = (g', state', result)) :
    state' = (g.append .save rules state).2 ∧
      (g.append .save rules state).1.sealPending g.sealedThrough = (g', result.map Prod.snd) ∧
      ∀ point frames, result = .ok (point, frames) → point =
        ⟨g.nextEvent, g'.nextTurn - 1, g'.history, g.sealedThrough⟩ := by
  unfold save at saved
  dsimp only at saved
  split at saved
  · next sealed =>
    cases saved
    exact ⟨rfl, sealed, nofun⟩
  rename_i sealed
  cases saved
  refine ⟨rfl, sealed, fun point frames same => ?_⟩
  cases same
  rfl

namespace Room
variable {σ : Type}

def unseat (r : Room σ) (index : Nat) (player : PlayerId) (kicked : Bool) : Room σ :=
  let r := { r with members := r.members.eraseIdx index }
  match r.phase with
  | .running game => r.append game (.playerLeft player kicked)
  | .lobby => r

def bar (r : Room σ) (player : PlayerId) (kicked : Bool) : Room σ :=
  { r with banned := if kicked && r.banned.length < maxBanned then r.banned.insert player else r.banned }

def depart (r : Room σ) (index : Nat) (player : PlayerId) (kicked : Bool) : Room σ :=
  (r.bar player kicked).unseat index player kicked

def handOn (r : Room σ) (player : PlayerId) : Room σ :=
  match r.members with
  | [] => { r.discardGame with closed := true }
  | first :: _ => if r.owner = player then { r with owner := first.player } else r

inductive Deed (mode : Mode) (o : Oracle) : Room σ → Room σ → Prop where
  | act {r r' : Room σ} (live : r.closed = false) (act : Act mode r r') : Deed mode o r r'
  | ordered {r : Room σ} {game : Game} {player : PlayerId} {clientSeq : UInt64} {payload : Payload}
      (live : r.closed = false) (running : r.phase = .running game)
      (valid : r.ruleset.validate r.state player payload = .ok ()) :
      Deed mode o r (r.append game (.command player clientSeq payload))
  | sat {r : Room σ} (new : NewMember) (now : Instant) (live : r.closed = false) (lobby : r.phase = .lobby)
      (fresh : ∀ other ∈ r.members, other.player ≠ new.player) (space : r.members.length < r.maxPlayers.toNat)
      (seats : mode.seats = true) : Deed mode o r { r with members := r.members ++ [.new new now] }
  | entered {r : Room σ} {game : Game} (new : NewMember) (now : Instant) (live : r.closed = false)
      (running : r.phase = .running game) (fresh : ∀ other ∈ r.members, other.player ≠ new.player)
      (space : r.members.length < r.maxPlayers.toNat) (seats : mode.seats = true) :
      Deed mode o r { r.append game (.playerJoined new.player new.name new.platform) with
        members := r.members ++ [{ Member.new new now with ready := true, content := r.content, needs := .world }] }
  | departed {r : Room σ} {index : Nat} {member : Member} {kicked : Bool} {calls : Nat} {out : List Output}
      (live : r.closed = false) (seat : r.members[index]? = some member)
      (farewell : out = r.out ∨ ∃ link, out = r.out ++ [.turn member.player link .close]) :
      Deed mode o r { (r.depart index member.player kicked).handOn member.player with calls, out }
  | expired {r : Room σ} {game : Game} (live : r.closed = false) (running : r.phase = .running game)
      (alone : ∀ member ∈ r.members, member.link = none) : Deed mode o r { r.discardGame with closed := true }
  | started {r : Room σ} {history : UInt64} {now : Instant} {calls : Nat} {content : Option ContentFingerprint}
      (live : r.closed = false) (lobby : r.phase = .lobby) (seated : r.members ≠ [])
      (same : ∀ member ∈ r.members, member.content = content) :
      Deed mode o r { r with
        calls
        content
        state := (r.seatMembers (.new r.settings history now)).2
        phase := .running (r.seatMembers (.new r.settings history now)).1 }
  | logOpened {r : Room σ} {game : Game} (live : r.closed = false) (running : r.phase = .running game)
      (first : game.nextTurn = 1) (only : game.histories.length = 1)
      (joined : ∀ event ∈ game.pending, ∃ player name platform, event.body = .playerJoined player name platform) :
      Deed mode o r (r.openLog o game.history)
  | saved {r : Room σ} {game game' : Game} {state : σ} {point : SavePoint} {frames : List Bytes} (now : Instant)
      (busy : mode.saves = true) (live : r.closed = false) (running : r.phase = .running game)
      (free : game.saves.rounds = [] ∧ game.saves.upload = none)
      (save : game.save r.ruleset r.state = (game', state, .ok (point, frames))) :
      Deed mode o r ({ r with
        state
        phase := .running { game' with saves := { game'.saves with
          rounds := game'.saves.rounds.insert point.event { point, opened := now, reports := [] }
          lastSave := some now
          lastPoint := some point } } }.publish o frames)
  | unsaved {r : Room σ} {game game' : Game} {state : σ} {error : FrameError} {code : CloseCode} {reason : String}
      (live : r.closed = false) (running : r.phase = .running game)
      (save : game.save r.ruleset r.state = (game', state, .error error)) :
      Deed mode o r ({ r with state, phase := .running game' }.closeAll code reason)
  | sealed {r : Room σ} {game game' : Game} {frontier : Nat} {pacer : Pacer} {frames : List Bytes} (now : Instant)
      (live : r.closed = false) (running : r.phase = .running game)
      (paced : game.pacer.advance (now - game.lastTick) game.speed (slowestPacer r.members) game.sealedThrough =
        (frontier, pacer))
      (sealed : ({ game with lastTick := now, pacer } : Game).sealPending frontier = (game', .ok frames)) :
      Deed mode o r ((r.withGame game').publish o frames)
  | unsealed {r : Room σ} {game game' : Game} {frontier : Nat} {pacer : Pacer} {error : FrameError} {code : CloseCode}
      {reason : String} (now : Instant) (live : r.closed = false) (running : r.phase = .running game)
      (sealed : ({ game with lastTick := now, pacer } : Game).sealPending frontier = (game', .error error)) :
      Deed mode o r ((r.withGame game').closeAll code reason)

abbrev Deeds (mode : Mode) (o : Oracle) : Room σ → Room σ → Prop := ReflTransGen (Deed mode o)

section Steps
variable {r r' : Room σ} {o : Oracle} {mode : Mode}

theorem Acts.deeds (acts : Acts mode r r') (live : r.closed = false) : Deeds mode o r r' := by
  induction acts with
  | refl => exact .refl
  | tail acts step ih => exact .tail ih (.act ((Acts.closed acts).trans live) step)

variable {index : Nat} {player : PlayerId} {game : Game} {member : Member} {now : Instant}

theorem position_seat (found : r.position player = some index) :
    ∃ member, r.members[index]? = some member ∧ member.player = player := by
  obtain ⟨inside, matched, _⟩ := findIdx?_eq_some_iff_getElem.mp found
  exact ⟨r.members[index], getElem?_eq_getElem inside, of_decide_eq_true matched⟩

theorem position_none (absent : r.position player = none) : ∀ member ∈ r.members, member.player ≠ player := by
  intro member seated same
  have missed := findIdx?_eq_none_iff.mp absent member seated
  exact absurd same (of_decide_eq_false missed)

theorem afterDeparture_deeds (player : PlayerId) (live : r.closed = false) :
    Deeds mode o (r.handOn player) (r.afterDeparture o player) := by
  unfold handOn afterDeparture
  cases r.members with
  | nil => exact .refl
  | cons first rest =>
    apply Acts.deeds broadcastView_acts
    dsimp only
    split <;> exact live

theorem handOn_told (player : PlayerId) (calls : Nat) (out : List Output) :
    ({ r with calls, out } : Room σ).handOn player = { r.handOn player with calls, out } := by
  unfold handOn
  dsimp only
  split
  · rfl
  · split <;> rfl

theorem handOn_table (player : PlayerId) :
    (r.handOn player).members = r.members ∧ (r.handOn player).phase = r.phase := by
  unfold handOn
  split
  · exact ⟨rfl, rfl⟩
  · split <;> exact ⟨rfl, rfl⟩

theorem unseat_lobby (index : Nat) (player : PlayerId) (kicked : Bool) (lobby : r.phase = .lobby) :
    r.unseat index player kicked = { r with members := r.members.eraseIdx index } := by
  unfold unseat
  rw [lobby]

theorem unseat_running (index : Nat) (player : PlayerId) (kicked : Bool) (running : r.phase = .running game) :
    r.unseat index player kicked =
      ({ r with members := r.members.eraseIdx index } : Room σ).append game (.playerLeft player kicked) := by
  unfold unseat
  rw [running]

theorem depart_lobby (index : Nat) (player : PlayerId) (kicked : Bool) (lobby : r.phase = .lobby) :
    r.depart index player kicked = { r.bar player kicked with members := r.members.eraseIdx index } :=
  unseat_lobby index player kicked lobby

theorem depart_running (index : Nat) (player : PlayerId) (kicked : Bool) (running : r.phase = .running game) :
    r.depart index player kicked =
      ({ r.bar player kicked with members := r.members.eraseIdx index } : Room σ).append game
      (.playerLeft player kicked) :=
  unseat_running index player kicked running

theorem depart_members (index : Nat) (player : PlayerId) (kicked : Bool) :
    ((r.depart index player kicked).handOn player).members = r.members.eraseIdx index := by
  rw [(handOn_table _).1]
  cases phase : r.phase with
  | lobby => rw [depart_lobby _ _ _ phase]
  | running game =>
    rw [depart_running _ _ _ phase]
    rfl

theorem unseat_closed (index : Nat) (player : PlayerId) (kicked : Bool) :
    (r.unseat index player kicked).closed = r.closed := by
  cases phase : r.phase with
  | lobby => rw [unseat_lobby _ _ _ phase]
  | running game =>
    rw [unseat_running _ _ _ phase]
    rfl

theorem departed_deeds {kicked : Bool} {calls : Nat} {out : List Output}
    (live : r.closed = false) (seat : r.members[index]? = some member)
    (farewell : out = r.out ∨ ∃ link, out = r.out ++ [.turn member.player link .close]) :
    Deeds mode o r (afterDeparture o { r.depart index member.player kicked with calls, out } member.player) := by
  have move : Deed mode o r { (r.depart index member.player kicked).handOn member.player with calls, out } :=
    .departed live seat farewell
  rw [← handOn_told] at move
  exact .head move (afterDeparture_deeds member.player ((unseat_closed _ _ _).trans live))

theorem leave_eq (kicked : Bool) (found : r.position player = some index) :
    ∃ calls out, (out = r.out ∨ ∃ link, out = r.out ++ [.turn player link .close]) ∧
      (r.leave o player kicked).1 = afterDeparture o { r.unseat index player kicked with calls, out } player := by
  unfold leave unseat
  rw [found]
  dsimp only
  generalize (r.members[index]?.bind fun member => if member.streaming = true then member.link else none) = streamed
  cases streamed with
  | none =>
    refine ⟨r.calls, r.out, .inl rfl, ?_⟩
    cases r.phase <;> rfl
  | some link =>
    unfold trySend
    dsimp only
    by_cases sent : o.send r.calls = .done
    · refine ⟨r.calls + 1, r.out ++ [.turn player link .close], .inr ⟨link, rfl⟩, ?_⟩
      rw [if_pos sent]
      unfold emit
      cases r.phase <;> rfl
    · refine ⟨r.calls + 1, r.out, .inl rfl, ?_⟩
      rw [if_neg sent]
      cases r.phase <;> rfl

theorem leave_deeds {kicked : Bool} (live : r.closed = false)
    (found : r.position player = some index) : Deeds mode o r ((r.bar player kicked).leave o player kicked).1 := by
  obtain ⟨member, seat, rfl⟩ := position_seat found
  have found' : (r.bar member.player kicked).position member.player = some index := found
  obtain ⟨calls, out, farewell, left⟩ := leave_eq kicked found'
  rw [left]
  exact departed_deeds live seat farewell

theorem kick_deeds (kicker target : PlayerId) (live : r.closed = false) :
    Deeds mode o r (r.kick o kicker target).1 := by
  unfold kick
  split
  · exact .refl
  split
  · exact .refl
  split
  · exact .refl
  rename_i index found
  dsimp only
  have pushed : Acts mode r (r.push o index .kicked) := push_acts index _
  generalize r.push o index .kicked = told at pushed
  have live' : told.closed = false := (Acts.closed pushed).trans live
  apply (Acts.deeds pushed live).trans
  have barred : (if told.banned.length < maxBanned then { told with banned := told.banned.insert target } else told) =
      told.bar target true := by
    unfold bar
    simp only [Bool.true_and, decide_eq_true_eq]
    split <;> rfl
  rw [barred]
  have found' : told.position target = some index := by
    rw [position_eq, Acts.players pushed, ← position_eq]
    exact found
  exact leave_deeds live' found'

theorem disconnected_deeds (player : PlayerId) (link : UInt64) (live : r.closed = false) :
    Deeds mode o r (r.disconnected o player link) := by
  unfold disconnected
  split
  · exact .refl
  rename_i index found
  obtain ⟨inside, matched, _⟩ := findIdx?_eq_some_iff_getElem.mp found
  have seat := getElem?_eq_getElem inside
  have same : r.members[index].player = player := by simp_all
  split
  · next lobby =>
    have left : ({ r with members := r.members.eraseIdx index } : Room σ) =
        { r.depart index r.members[index].player false with calls := r.calls, out := r.out } := by
      rw [depart_lobby _ _ _ lobby]
      rfl
    rw [left, ← same]
    exact departed_deeds live seat (.inl rfl)
  · split
    · exact .refl
    · next member seat =>
      exact Acts.deeds (.head (.unlinked seat) broadcastView_acts) live

theorem takeSeat_deeds {new : NewMember} {content : Option ContentFingerprint}
    (seats : mode.seats = true) (live : r.closed = false) (absent : r.position new.player = none) :
    Deeds mode o r (r.takeSeat o now new content).1 ∧ (r.takeSeat o now new content).1.closed = false := by
  have fresh := position_none absent
  unfold takeSeat
  dsimp only
  split
  · next game running =>
    split
    · exact ⟨.refl, live⟩
    split
    · exact ⟨.refl, live⟩
    rename_i space
    split
    · exact ⟨.refl, live⟩
    obtain rfl : content = r.content := by simp_all
    have entered : Deed mode o r { r.append game (.playerJoined new.player new.name new.platform) with
        members := r.members ++ [{ Member.new new now with ready := true, content := r.content, needs := .world }] } :=
      .entered new now live running fresh (not_le.mp space) seats
    have offers : Acts mode _ _ := offerWorlds_acts (o := o) (r := { r.append game
      (.playerJoined new.player new.name new.platform) with
        members := r.members ++
          [{ Member.new new now with ready := true, content := r.content, needs := .world }] }) now
    exact ⟨.head entered (Acts.deeds offers live), (Acts.closed offers).trans live⟩
  · next lobby =>
    split
    · exact ⟨.refl, live⟩
    · next space => exact ⟨.single (.sat new now live lobby fresh (not_le.mp space) seats), live⟩

theorem admit_deeds (seats : mode.seats = true) (now : Instant) (new : NewMember) (resume : Option Resume)
    (content : Option ContentFingerprint) (live : r.closed = false) :
    Deeds mode o r (r.admitMember o now new resume content).1 ∧
      (r.admitMember o now new resume content).1.closed = false := by
  unfold admitMember
  split
  · next absent => exact takeSeat_deeds seats live absent
  rename_i index found
  obtain ⟨member, seat, same⟩ := position_seat found
  rw [seat]
  dsimp only
  split
  · exact ⟨.refl, live⟩
  rename_i rejoin joined
  have acts : Acts mode r ((r.takeOver o index member new rejoin).offerWorlds o now) :=
    (takeOver_acts seats seat same joined).trans (offerWorlds_acts now)
  exact ⟨Acts.deeds acts live, (Acts.closed acts).trans live⟩

theorem join_deeds (seats : mode.seats = true) (now : Instant) (new : NewMember) (token : FixedBytes 32)
    (password : Option (Text 64))
    (resume : Option Resume) (content : Option ContentFingerprint) (live : r.closed = false) :
    Deeds mode o r (r.join o now new token password resume content).1 ∧
      (r.join o now new token password resume content).1.closed = false := by
  have guarded : ∀ passwordGuard, Deed mode o r { r with passwordGuard } := fun passwordGuard =>
    .act live (.noted r passwordGuard r.unattendedSince r.calls)
  unfold join
  split
  · exact ⟨.refl, live⟩
  dsimp only
  split
  · split
    · exact admit_deeds seats now new resume content live
    split
    · exact And.imp_left (.head (guarded (r.passwordGuard.isOpen now).2))
        (admit_deeds seats now new resume content live)
    · exact ⟨.single (guarded _), live⟩
  · split
    · exact ⟨.refl, live⟩
    · exact ⟨.single (guarded _), live⟩
  · exact ⟨.refl, live⟩

theorem seatMembers_game (r : Room σ) (game : Game) :
    ∃ nextEvent seated pending,
      (r.seatMembers game).1 = { game with nextEvent, seated, pending := game.pending ++ pending } ∧
      ∀ event ∈ pending, ∃ player name platform, event.body = .playerJoined player name platform := by
  unfold seatMembers
  generalize r.state = state
  induction r.members generalizing game state with
  | nil => exact ⟨game.nextEvent, game.seated, [], by rw [append_nil]; rfl, by simp⟩
  | cons member members ih =>
    obtain ⟨nextEvent, seated, pending, seatedAll, joined⟩ :=
      ih (game.append (.playerJoined member.player member.name member.platform) r.ruleset state).1
        (game.append (.playerJoined member.player member.name member.platform) r.ruleset state).2
    let event : Event :=
      { seq := game.nextEvent, step := (game.sealedThrough + 1) % 2 ^ 64
        body := .playerJoined member.player member.name member.platform }
    refine ⟨nextEvent, seated, event :: pending, ?_, ?_⟩
    · rw [foldl_cons, append_cons]
      exact seatedAll
    intro other present
    rcases mem_cons.mp present with rfl | later
    · exact ⟨_, _, _, rfl⟩
    · exact joined other later

theorem startMember_withGame (opened : TurnStart) (sharedWorld : Bool) (game : Game) (index : Nat) :
    startMember o opened sharedWorld (r.withGame game) index =
      (startMember o opened sharedWorld r index).withGame game := by
  unfold startMember
  rw [show (r.withGame game).members = r.members from rfl]
  cases r.members[index]? with
  | none => rfl
  | some member =>
    dsimp only
    rw [show (r.withGame game).owner = r.owner from rfl]
    by_cases waits : (sharedWorld && decide (member.player ≠ r.owner)) = true
    · rw [if_pos waits, if_pos waits]
      rfl
    rw [if_neg waits, if_neg waits]
    cases member.link with
    | none => rfl
    | some link =>
      unfold trySend
      rw [show (r.withGame game).calls = r.calls from rfl]
      dsimp only
      by_cases sent : o.send r.calls = .done
      · rw [if_pos sent, if_pos sent]
        rfl
      · rw [if_neg sent, if_neg sent]
        rfl

theorem startMembers_withGame (opened : TurnStart) (sharedWorld : Bool) (game : Game) :
    (r.withGame game).forMembers (startMember o opened sharedWorld) =
      (r.forMembers (startMember o opened sharedWorld)).withGame game :=
  foldl_hom (fun room : Room σ => room.withGame game) fun _ index => startMember_withGame opened sharedWorld game index

/-- A game nothing of which is sealed, and the start of a stream from its beginning. -/
structure Unsealed (game : Game) (opened : TurnStart) : Prop where
  unsealed : game.sealedThrough = 0
  covers : game.logFirstTurn ≤ opened.nextTurn ∧ opened.nextTurn = game.nextTurn
  worldless : opened.world = none
  empty : game.log = []

theorem startMember_acts {opened : TurnStart} {sharedWorld : Bool}
    (running : r.phase = .running game) (unsealed : Unsealed game opened) :
    Acts mode r (startMember o opened sharedWorld r index) ∧
      (startMember o opened sharedWorld r index).phase = .running game := by
  unfold startMember
  dsimp only
  split
  · exact ⟨.refl, running⟩
  rename_i member seat
  split
  · exact ⟨.single (.unbegun .world running unsealed.unsealed seat), running⟩
  split
  · exact ⟨.single (.unbegun .nothing running unsealed.unsealed seat), running⟩
  rename_i link linked
  unfold trySend
  dsimp only
  by_cases sent : o.send r.calls = .done
  · rw [if_pos sent, decide_eq_true sent]
    exact ⟨.head (counted_acts _) (.single (.begun running unsealed.unsealed unsealed.covers unsealed.worldless
      unsealed.empty seat linked)), running⟩
  · rw [if_neg sent, decide_eq_false sent]
    exact ⟨.head (counted_acts _) (.single (.unbegun .nothing running unsealed.unsealed seat)), running⟩

theorem openLog_eq (history : UInt64) : ∃ disk calls log, r.openLog o history = { r with disk, calls, log } := by
  unfold openLog
  split
  · dsimp only
    split <;> exact ⟨_, _, _, rfl⟩
  · exact ⟨_, _, _, rfl⟩

theorem start_opens {opened : TurnStart} {sharedWorld : Bool} (live : r.closed = false)
    (running : r.phase = .running game) (unsealed : Unsealed game opened) (first : game.nextTurn = 1)
    (only : game.histories.length = 1)
    (joined : ∀ event ∈ game.pending, ∃ player name platform, event.body = .playerJoined player name platform) :
    let seated := r.forMembers (startMember o opened sharedWorld)
    let offered := if sharedWorld && seated.members.length > 1 then seated.offerWorlds o now else seated
    Deeds mode o r (offered.openLog o game.history) ∧ (offered.openLog o game.history).closed = false := by
  intro seated offered
  have opens : Acts mode r seated :=
    (Acts.foldl (fun _ _ _ here => startMember_acts here unsealed) running).1
  have offers : Acts mode r offered := by
    dsimp only [offered]
    split
    · exact opens.trans (offerWorlds_acts now)
    · exact opens
  have live' : offered.closed = false := (Acts.closed offers).trans live
  obtain ⟨game', running', soft⟩ := Acts.running offers running
  have same : game'.history = game.history := by
    obtain ⟨_, _, _, _, _, _, rfl⟩ := soft
    rfl
  rw [← same]
  have opened : (offered.openLog o game'.history).closed = false := by
    obtain ⟨_, _, _, logged⟩ := openLog_eq game'.history
    rw [logged]
    exact live'
  refine ⟨.tail (Acts.deeds offers live) (.logOpened live' running' ?_ ?_ ?_), opened⟩
  all_goals
    obtain ⟨_, _, _, _, _, _, rfl⟩ := soft
    assumption

theorem start_deeds (now : Instant) (player : PlayerId) (live : r.closed = false) :
    Deeds mode o r (r.start o now player).1 ∧ (r.start o now player).1.closed = false := by
  unfold start
  split
  · exact ⟨.refl, live⟩
  split
  · exact ⟨.refl, live⟩
  rename_i lobby
  split
  · exact ⟨.refl, live⟩
  dsimp only
  split
  · exact ⟨.refl, live⟩
  rename_i declared
  generalize contents : (r.members.head?.map Member.content).join = content at declared
  have same : ∀ member ∈ r.members, member.content = content := by simp_all
  have seated : r.members ≠ [] := by
    intro empty
    rw [empty] at contents
    rw [← contents] at declared
    exact declared rfl
  obtain ⟨nextEvent, table, pending, game, joined⟩ :=
    r.seatMembers_game (.new r.settings (o.history r.calls) now)
  have begun : Deed mode o r { r with
      calls := r.calls + 1
      content
      state := (r.seatMembers (.new r.settings (o.history r.calls) now)).2
      phase := .running (r.seatMembers (.new r.settings (o.history r.calls) now)).1 } :=
    .started live lobby seated same
  generalize r.seatMembers (.new r.settings (o.history r.calls) now) = placed at game begun
  obtain ⟨placed, state⟩ := placed
  subst game
  rw [← startMembers_withGame]
  refine And.imp_left (.head begun) (start_opens live rfl ⟨rfl, ⟨le_rfl, rfl⟩, rfl, rfl⟩ rfl rfl ?_)
  simpa [Game.new] using joined

theorem intent_deeds (now : Instant) (player : PlayerId) (clientSeq : UInt64) (payload : Payload)
    (live : r.closed = false) : Deeds mode o r (r.intent o now player clientSeq payload) := by
  unfold intent
  split
  · exact .refl
  rename_i index member found
  have seat := (seat_found found).2
  split
  · exact Acts.deeds (push_acts _ _) live
  rename_i game running
  dsimp only
  have taken : ∀ intents, Acts mode r (r.setMember index { member with intents }) := fun _ =>
    .single (.adjusted seat (.inr rfl))
  split
  · exact Acts.deeds ((taken _).trans (push_acts _ _)) live
  have inside : index < r.members.length := (List.getElem?_eq_some_iff.mp seat).1
  have paid : ∀ intents payloadBytes, Acts mode r
      ((r.setMember index { member with intents }).setMember index { member with intents, payloadBytes }) := by
    intro intents payloadBytes
    have here : (r.setMember index { member with intents }).members[index]? = some { member with intents } :=
      getElem?_set_self inside
    apply (taken intents).tail
    exact @Act.adjusted _ _ _ _ { member with intents } _ _ _ _ _ here (.inr rfl)
  split
  · exact Acts.deeds ((paid _ _).trans (push_acts _ _)) live
  split
  · exact Acts.deeds ((paid _ _).trans (push_acts _ _)) live
  · next valid =>
    have ordered := paid (member.intents.take now 1).2 (member.payloadBytes.take now payload.1.length).2
    exact .tail (Acts.deeds ordered live) (.ordered live running valid)

theorem due_free {saves : Saves} {every minGap : Duration} {started : Instant} {log : Nat × Nat}
    (due : saves.due now every minGap started log = true) : saves.rounds = [] ∧ saves.upload = none := by
  unfold Saves.due at due
  split at due
  · cases due
  · next free => simpa using free

theorem saveIfDue_deeds (busy : mode.saves = true) (snapshots : Snapshots) (now : Instant) (live : r.closed = false) :
    Deeds mode o r (r.saveIfDue o snapshots now) := by
  unfold saveIfDue
  dsimp only
  split
  · exact .refl
  rename_i game running
  split
  · exact .refl
  rename_i due
  simp only [Bool.or_eq_true, Bool.not_eq_true', not_or, Bool.not_eq_false] at due
  split
  · next saving => exact .single (.unsaved live running saving)
  · next saving => exact .single (.saved now busy live running (due_free due.2) saving)

theorem runSaves_deeds (busy : mode.saves = true) (now : Instant) (live : r.closed = false) :
    Deeds mode o r (r.runSaves o now) := by
  unfold runSaves
  split
  · next snapshots game some running =>
    generalize stalls : game.saves.upload.filter (uploadStalled now) = stalled
    generalize (game.saves.rounds.filter _).map Prod.fst = ready
    have saved : ∀ {left}, Acts mode r left → Deeds mode o r (left.saveIfDue o snapshots now) := fun acts =>
      (Acts.deeds acts live).trans (saveIfDue_deeds busy snapshots now ((Acts.closed acts).trans live))
    have decided : ∀ {left}, Acts mode r left →
        Acts mode r (ready.foldl (fun r event => r.decideSave o now event) left) := fun acts =>
      acts.trans (Acts.foldl (P := fun _ => True)
        (fun _ event _ _ => ⟨decideSave_acts busy now event, trivial⟩) trivial).1
    cases stalled with
    | none =>
      have kept : Acts mode r (r.withGame { game with saves := game.saves }) := by
        rw [show r.withGame { game with saves := game.saves } = r by rw [withGame, ← running]]
      exact saved (decided kept)
    | some upload =>
      have found : game.saves.upload = .some upload := (Option.filter_eq_some_iff.mp stalls).1
      have dropped : Acts mode r (r.withGame { game with
          saves := { game.saves with upload := none }.failedUploader upload.sender }) := by
        let left : Game := { game with saves := { game.saves with upload := none } }
        have first : Act mode r (r.withGame left) := .kept running (.dropped found busy)
        have second : Act mode (r.withGame left) (r.withGame { left with
            saves := left.saves.failedUploader upload.sender }) := .kept rfl (.failed left.saves upload.sender busy)
        exact .head first (.single second)
      exact saved ((decided dropped).trans
        ((endUpload_acts upload).trans (askForUpload_acts busy now upload.point upload.rest)))
  · exact .refl

theorem expireIfAbandoned_deeds (now : Instant) (live : r.closed = false) :
    Deeds mode o r (r.expireIfAbandoned now) ∧ (r.expireIfAbandoned now).phase = r.phase := by
  have noted : ∀ unattendedSince, Deed mode o r { r with unattendedSince } := fun _ =>
    .act live (.noted r r.passwordGuard _ r.calls)
  unfold expireIfAbandoned
  split
  · exact ⟨.refl, rfl⟩
  rename_i game running
  split
  · exact ⟨.single (noted _), rfl⟩
  rename_i alone
  dsimp only
  split
  · exact ⟨.single (noted _), rfl⟩
  · have absent : ∀ member ∈ r.members, member.link = none := by simpa using alone
    exact ⟨.head (noted _) (.single (.expired
      live running absent)), rfl⟩

theorem afterDeparture_lobby (player : PlayerId) (lobby : r.phase = .lobby) :
    (r.afterDeparture o player).phase = .lobby := by
  unfold afterDeparture
  split
  · exact lobby
  · apply Acts.lobby (broadcastView_acts : Acts .all _ _)
    split <;> exact lobby

theorem sweepSeats_deeds (rounds : Nat) (live : r.closed = false) (lobby : r.phase = .lobby) :
    Deeds mode o r (r.sweepSeats o rounds) ∧ (r.sweepSeats o rounds).phase = .lobby := by
  induction rounds generalizing r with
  | zero => exact ⟨.refl, lobby⟩
  | succ rounds ih =>
    unfold sweepSeats
    split
    · exact ⟨.refl, lobby⟩
    rename_i index _
    split
    · exact ⟨.refl, lobby⟩
    rename_i member seat
    dsimp only
    have left : ({ r with members := r.members.eraseIdx index } : Room σ) =
        { r.depart index member.player false with calls := r.calls, out := r.out } := by
      rw [depart_lobby _ _ _ lobby]
      rfl
    have gone : Deeds mode o r (afterDeparture o { r with members := r.members.eraseIdx index } member.player) := by
      rw [left]
      exact departed_deeds live seat (.inl rfl)
    have lobby' : (afterDeparture o { r with members := r.members.eraseIdx index } member.player).phase = .lobby :=
      afterDeparture_lobby _ lobby
    split
    · exact ⟨gone, lobby'⟩
    · next open_ =>
      obtain ⟨rest, last⟩ := ih (Bool.eq_false_iff.mpr open_) lobby'
      exact ⟨gone.trans rest, last⟩

theorem tickSaves_begins (now : Instant) (live : r.closed = false) :
    Deeds mode o r ((r.sweepLobby o).expireIfAbandoned now) := by
  have swept : Deeds mode o r (r.sweepLobby o) ∧ ((r.sweepLobby o).phase = .lobby ∨ r.sweepLobby o = r) := by
    unfold sweepLobby
    split
    · exact ⟨.refl, .inr rfl⟩
    · next lobby =>
      have seats : Deeds mode o r (r.sweepSeats o r.members.length) ∧ _ := sweepSeats_deeds r.members.length live lobby
      exact ⟨seats.1, .inl seats.2⟩
  obtain ⟨deeds, lobby | same⟩ := swept
  · unfold expireIfAbandoned
    rw [lobby]
    exact deeds
  · rw [same]
    exact (expireIfAbandoned_deeds now live).1

theorem tickSaves_comes (judges : mode.judges = true) (now : Instant) (live : r.closed = false) :
    ∃ before, Deeds mode o r before ∧
      (r.tickSaves o now = before ∨ before.closed = false ∧ r.tickSaves o now = before.runSaves o now) := by
  have expired : Deeds mode o r ((r.sweepLobby o).expireIfAbandoned now) := tickSaves_begins now live
  unfold tickSaves
  dsimp only
  generalize (r.sweepLobby o).expireIfAbandoned now = kept at expired
  split
  · exact ⟨kept, expired, .inl rfl⟩
  rename_i open_
  have live' := Bool.eq_false_iff.mpr open_
  have waited : Acts mode kept ((kept.decideWaitingRounds o now).demoteStalled now) :=
    (decideWaitingRounds_acts judges now).trans (demoteStalled_acts now)
  exact ⟨_, expired.trans (Acts.deeds waited live'), .inr ⟨(Acts.closed waited).trans live', rfl⟩⟩

theorem tickSaves_deeds (busy : mode.saves = true) (judges : mode.judges = true) (now : Instant)
    (live : r.closed = false) : Deeds mode o r (r.tickSaves o now) := by
  obtain ⟨before, deeds, same | ⟨live', same⟩⟩ : ∃ before, Deeds mode o r before ∧ _ := tickSaves_comes judges now live
  · rw [same]
    exact deeds
  · rw [same]
    exact deeds.trans (runSaves_deeds busy now live')

theorem tickSeal_deeds (now : Instant) : Deeds mode o r (r.tickSeal o now) := by
  unfold tickSeal
  split
  · exact .refl
  rename_i open_
  have live := Bool.eq_false_iff.mpr open_
  split
  · exact .refl
  rename_i game running
  dsimp only
  split
  · exact .single (.act live (.ticked now running))
  · split
    · next sealing => exact .single (.unsealed now live running sealing)
    · next game' frames sealing => exact .single (.sealed now live running rfl sealing)

theorem answerAndBroadcast_deeds {result : Room σ × Except RequestError Unit} (moves : Deeds mode o r result.1)
    (live : result.1.closed = false) : Deeds mode o r (answerAndBroadcast o result).1 := by
  unfold answerAndBroadcast
  split
  · exact moves.trans (Acts.deeds broadcastView_acts live)
  · exact moves

theorem answerAndBroadcastIfChanged_acts {result : Room σ × Except RequestError Bool} (calms : Acts mode r result.1) :
    Acts mode r (answerAndBroadcastIfChanged o result).1 := by
  unfold answerAndBroadcastIfChanged
  split
  · exact calms.trans broadcastView_acts
  · exact calms
  · exact calms

def Idle : RoomCommand → Prop
  | .saved .. | .upload .. | .uploaded .. => False
  | _ => True

def reportOf : RoomCommand → Option (PlayerId × UInt64 × Nat)
  | .progress player link step => some (player, link, step)
  | _ => none

def Unjudging : RoomCommand → Prop
  | .checkpoint .. => False
  | _ => True

def Unseating : RoomCommand → Prop
  | .join .. => False
  | _ => True

theorem handle_deeds (now : Instant) (command : RoomCommand) (live : r.closed = false)
    (may : mode.saves = true ∨ Idle command) (reports : mode.reports = true ∨ reportOf command = none)
    (judges : mode.judges = true ∨ Unjudging command) (seats : mode.seats = true ∨ Unseating command) :
    Deeds mode o r (r.handle o now command).1 := by
  cases command with
  | join new token password resume content =>
    have joins : Deeds mode o r (r.join o now new token password resume content).1 ∧ _ :=
      join_deeds (seats.resolve_right not_false) now new token password resume content live
    unfold handle
    dsimp only
    split
    · exact joins.1.trans (Acts.deeds broadcastView_acts joins.2)
    · exact joins.1
  | leave player =>
    show Deeds mode o r (r.leave o player false).1
    cases found : r.position player with
    | none =>
      unfold leave
      rw [found]
    | some index =>
      have left : Deeds mode o r ((r.bar player false).leave o player false).1 := leave_deeds live found
      exact left
  | disconnected player link => exact disconnected_deeds player link live
  | setReady player ready => exact Acts.deeds (answerAndBroadcastIfChanged_acts (setReady_acts player ready)) live
  | declareContent player content =>
    exact Acts.deeds (answerAndBroadcastIfChanged_acts (declareContent_acts player content)) live
  | start player =>
    have starts : Deeds mode o r (r.start o now player).1 ∧ _ := start_deeds now player live
    exact answerAndBroadcast_deeds starts.1 starts.2
  | setSpeed player speed => exact Acts.deeds (setSpeed_acts player speed) live
  | kick player target => exact kick_deeds player target live
  | isMember player => exact .refl
  | chat player text => exact Acts.deeds (chat_acts now player text) live
  | intent player clientSeq payload => exact intent_deeds now player clientSeq payload live
  | progress player link step =>
    have reports := reports.resolve_right (by simp [reportOf])
    exact Acts.deeds (progress_acts reports now player link step) live
  | checkpoint player link step lanes =>
    exact Acts.deeds (checkpoint_acts (judges.resolve_right not_false) now player link step lanes) live
  | saved player link event lanes world =>
    exact Acts.deeds (saved_acts (may.resolve_right not_false) now player link event lanes world) live
  | fetch player link snapshot => exact .refl
  | upload player link snapshot =>
    exact Acts.deeds (uploadStarts_acts (may.resolve_right not_false) player link snapshot) live
  | uploaded player snapshot result =>
    exact Acts.deeds (uploaded_acts (may.resolve_right not_false) now player snapshot result) live

def Cut (member member' : Member) : Prop := member' = member ∨ member' = member.unlinked

theorem cut_refl (members : List Member) : Forall₂ Cut members members :=
  forall₂_same.mpr fun _ _ => .inl rfl

theorem Cut.trans {a b c : Member} (first : Cut a b) (second : Cut b c) : Cut a c := by
  rcases first with rfl | rfl
  · exact second
  · rcases second with rfl | rfl
    · exact .inr rfl
    · exact .inr rfl

theorem cut_trans {a b c : List Member} (first : Forall₂ Cut a b) (second : Forall₂ Cut b c) : Forall₂ Cut a c := by
  induction first generalizing c with
  | nil => exact second
  | cons cut _ ih =>
    cases second with
    | cons cut' rest => exact .cons (cut.trans cut') (ih rest)

theorem cut_set {members : List Member} (seat : members[index]? = some member) :
    Forall₂ Cut members (members.set index member.unlinked) := by
  induction members generalizing index with
  | nil => exact .nil
  | cons first members ih =>
    cases index with
    | zero =>
      cases seat
      exact .cons (.inr rfl) (cut_refl members)
    | succ index => exact .cons (.inl rfl) (ih seat)

/-- Only outputs, the oracle's count and lost connections differ. -/
def Severed (r r' : Room σ) : Prop :=
  ∃ members out calls, r' = { r with members, out, calls } ∧ Forall₂ Cut r.members members

theorem Severed.refl (r : Room σ) : r.Severed r := ⟨_, _, _, rfl, cut_refl _⟩

theorem Severed.trans {a b c : Room σ} (first : a.Severed b) (second : b.Severed c) : a.Severed c := by
  obtain ⟨_, _, _, rfl, cut⟩ := first
  obtain ⟨_, _, _, rfl, cut'⟩ := second
  exact ⟨_, _, _, rfl, cut_trans cut cut'⟩

theorem emit_severed (output : Output) : r.Severed (r.emit output) := ⟨_, _, _, rfl, cut_refl _⟩

theorem dropLink_severed (index : Nat) (slow : Bool) : r.Severed (r.dropLink index slow) := by
  unfold dropLink
  split
  · exact .refl r
  rename_i member seat
  split
  · exact .refl r
  · dsimp only
    split <;> exact ⟨_, _, _, rfl, cut_set seat⟩

theorem sendLinked_severed (index : Nat) (output : PlayerId → UInt64 → Output) :
    r.Severed (r.sendLinked o index output) := by
  unfold sendLinked
  split
  · exact .refl r
  rename_i member seat
  split
  · exact .refl r
  rename_i link _
  have sent : r.Severed (r.trySend o (output member.player link)).2 := by
    unfold trySend
    dsimp only
    split <;> exact ⟨_, _, _, rfl, cut_refl _⟩
  dsimp only
  split
  · exact sent
  · exact sent.trans (dropLink_severed _ _)

theorem severed_foldl {ι : Type} {act : Room σ → ι → Room σ} (each : ∀ (r : Room σ) item, r.Severed (act r item))
    (items : List ι) : r.Severed (items.foldl act r) :=
  Run.foldl_preserves (fun room item severed => severed.trans (each room item)) (.refl r) items

theorem publishFrame_severed (frame : Bytes) : r.Severed (publishFrame o r frame) := by
  have sends : ∀ (room : Room σ) (index : Nat), room.Severed
      (if room.members[index]?.any Member.streaming then room.sendTurn o index (.frame frame) else room) := by
    intro room index
    split
    · exact sendLinked_severed index _
    · exact .refl room
  exact (emit_severed (.sealed frame)).trans (severed_foldl sends _)

theorem publishFrames_severed (frames : List Bytes) : r.Severed (frames.foldl (publishFrame o) r) :=
  severed_foldl (fun _ frame => publishFrame_severed frame) frames

theorem logFrames_eq (frames : List Bytes) : ∃ disk calls log, r.logFrames o frames = { r with disk, calls, log } := by
  unfold logFrames
  split
  · exact ⟨_, _, _, rfl⟩
  · exact ⟨_, _, _, rfl⟩

theorem startCompaction_eq : ∃ compaction compactAt, r.startCompaction = { r with compaction, compactAt } := by
  unfold startCompaction
  split
  · split
    · exact ⟨_, _, rfl⟩
    · split <;> exact ⟨_, _, rfl⟩
  · exact ⟨_, _, rfl⟩

theorem publish_eq (frames : List Bytes) : ∃ members out calls disk log compaction compactAt,
    r.publish o frames = { r with members, out, calls, disk, log, compaction, compactAt } ∧
      Forall₂ Cut r.members members := by
  unfold publish
  obtain ⟨disk, calls, log, logged⟩ := logFrames_eq frames
  rw [logged]
  dsimp only
  generalize r.compaction.map _ = compaction
  obtain ⟨members, out, calls', sent, cut⟩ := publishFrames_severed
    frames
  rw [sent]
  obtain ⟨compaction', compactAt, compacted⟩ := startCompaction_eq
  rw [compacted]
  exact ⟨_, _, _, _, _, _, _, rfl, cut⟩

theorem closeLink_eq (code : CloseCode) (reason : String)
    (seat : r.members[index]? = some member) : ∃ out, closeLink code reason r index =
      { r with out, members := r.members.set index { member with link := none, streaming := false } } := by
  unfold closeLink
  rw [seat]
  dsimp only
  split
  · exact ⟨_, rfl⟩
  · exact ⟨_, rfl⟩

theorem closeAll_silent (code : CloseCode) (reason : String) :
    ∃ members out, r.closeAll code reason = { r with members, out, closed := true } ∧
      members.map Member.player = r.members.map Member.player ∧
      ∀ member ∈ members, member.link = none ∧ member.streaming = false := by
  have along : ∀ count, ∃ members out, (range count).foldl (closeLink code reason) r = { r with members, out } ∧
      members.map Member.player = r.members.map Member.player ∧
      ∀ index member, index < count → members[index]? = some member → member.link = none ∧
        member.streaming = false := by
    intro count
    induction count with
    | zero => exact ⟨r.members, r.out, rfl, rfl, fun index _ early => absurd early (Nat.not_lt_zero index)⟩
    | succ count ih =>
      obtain ⟨members, out, folded, players, silent⟩ := ih
      rw [range_succ, foldl_append, foldl_cons, foldl_nil, folded]
      cases seat : members[count]? with
      | none =>
        refine ⟨members, out, ?_, players, fun index member early there => ?_⟩
        · unfold closeLink
          rw [seat]
        rcases Nat.lt_succ_iff_lt_or_eq.mp early with before | rfl
        · exact silent index member before there
        · cases seat.symm.trans there
      | some member =>
        obtain ⟨out', closed⟩ := closeLink_eq (r := { r with members, out }) code reason seat
        have same : (members.set count { member with link := none, streaming := false }).map Member.player =
            members.map Member.player := map_player_set seat rfl
        refine ⟨_, out', closed, same.trans players, fun index other early there => ?_⟩
        by_cases here : index = count
        · subst here
          rw [getElem?_set_self (List.getElem?_eq_some_iff.mp seat).1] at there
          cases there
          exact ⟨rfl, rfl⟩
        · rw [getElem?_set_ne (Ne.symm here)] at there
          exact silent index other (by omega) there
  obtain ⟨members, out, folded, players, silent⟩ := along r.members.length
  refine ⟨members, out, ?_, players, fun member seated => ?_⟩
  · unfold closeAll forMembers
    rw [folded]
  obtain ⟨index, there⟩ := mem_iff_getElem?.mp seated
  have size : members.length = r.members.length := by
    rw [← length_map Member.player, players, length_map]
  exact silent index member (size ▸ (List.getElem?_eq_some_iff.mp there).1) there

end Steps
end Room
end Tpf3Mp.Server
