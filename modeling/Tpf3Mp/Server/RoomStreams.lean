import Tpf3Mp.Server.RoomCalm
import Tpf3Mp.Server.RoomDeeds
import Tpf3Mp.Server.TurnLog

/-!
What members with a stream have been sent. Whatever the room does and whichever sends fail, the turns
on a member's stream are the turns the room sealed since the one the stream starts with: each once,
in order, with nothing between them.
-/

namespace Tpf3Mp.Server
open Codec Proto Data Relation List

/-- What a connection's turn channel carried since its stream was last opened. -/
def channelStep (player : PlayerId) (link : UInt64) (got : Option (TurnStart × List Bytes)) :
    Output → Option (TurnStart × List Bytes)
  | .turn player' link' feed =>
    if player' = player ∧ link' = link then
      match feed with
      | .opened start backlog => some (start, backlog)
      | .frame bytes => got.map fun (start, frames) => (start, frames ++ [bytes])
      | .close => none
    else got
  | _ => got

def channel (out : List Output) (player : PlayerId) (link : UInt64) : Option (TurnStart × List Bytes) :=
  out.foldl (channelStep player link) none

def sealedFrames (out : List Output) : List Bytes :=
  out.filterMap fun
    | .sealed frame => some frame
    | _ => none

theorem channel_push (out : List Output) (output : Output) (player : PlayerId) (link : UInt64) :
    channel (out ++ [output]) player link = channelStep player link (channel out player link) output :=
  foldl_concat ..

theorem sealedFrames_push (out : List Output) (output : Output) :
    sealedFrames (out ++ [output]) = sealedFrames out ++ sealedFrames [output] :=
  filterMap_append

def Carries (frame : Bytes) (number : Nat) : Prop :=
  ∃ turn : Turn, turn.number = number ∧ (Encodes turn frame ∨ decodeTurn frame = some turn)

/-- A game that keeps the end of a ledger of turns in its window. -/
structure Game.Files (g : Game) (first : Nat) (ledger : List Bytes) : Prop where
  nextTurn : g.nextTurn = first + ledger.length
  low : first ≤ g.logFirstTurn
  high : g.logFirstTurn ≤ g.nextTurn
  window : g.log.map LoggedTurn.frame = ledger.drop (g.logFirstTurn - first)
  numbered : ∀ index frame, ledger[index]? = some frame → Carries frame (first + index)

namespace Game.Files
variable {g g' : Game} {first : Nat} {ledger : List Bytes}

section
variable (files : g.Files first ledger)
include files

theorem soft (soft : g.Soft g') : g'.Files first ledger := by
  obtain ⟨_, _, _, _, _, _, rfl⟩ := soft
  exact ⟨files.nextTurn, files.low, files.high, files.window, files.numbered⟩

theorem append {σ : Type} (body : EventBody) (rules : Ruleset σ) (state : σ) :
    (g.append body rules state).1.Files first ledger :=
  ⟨files.nextTurn, files.low, files.high, files.window, files.numbered⟩

theorem covered {start : TurnStart} {backlog : List Bytes} (covers : g.Covers start backlog) :
    first ≤ start.nextTurn ∧ start.nextTurn ≤ first + ledger.length ∧
      backlog = ledger.drop (start.nextTurn - first) := by
  have low := le_trans files.low covers.low
  refine ⟨low, files.nextTurn ▸ covers.high, ?_⟩
  have split : g.logFirstTurn - first + (start.nextTurn - g.logFirstTurn) = start.nextTurn - first := by
    have := files.low
    have := covers.low
    omega
  rw [covers.backlog, map_drop, files.window, drop_drop, split]

end

end Game.Files

theorem trimTurns_drop (window : Nat) (log : List LoggedTurn) (bytes first sealedBefore : Nat) :
    ∃ count ≤ log.length, (Game.trimTurns window log bytes first sealedBefore).1 = log.drop count ∧
      (Game.trimTurns window log bytes first sealedBefore).2.2.1 = first + count := by
  induction log generalizing bytes first sealedBefore with
  | nil => exact ⟨0, le_rfl, rfl, rfl⟩
  | cons oldest rest ih =>
    unfold Game.trimTurns
    split
    · obtain ⟨count, inside, kept, begins⟩ := ih (bytes - oldest.frame.length) (first + 1) oldest.sealedThrough
      refine ⟨count + 1, Nat.succ_le_succ inside, ?_, ?_⟩
      · rw [kept, drop_succ_cons]
      · rw [begins]
        omega
    · exact ⟨0, Nat.zero_le _, rfl, rfl⟩

variable {g : Game} {first : Nat} {ledger : List Bytes}

theorem Game.Files.keep {turn : LoggedTurn} (files : g.Files first ledger)
    (carries : Carries turn.frame g.nextTurn) : (g.keep turn).Files first (ledger ++ [turn.frame]) := by
  obtain ⟨count, inside, kept, begins⟩ :=
    trimTurns_drop g.resumeWindow (g.log ++ [turn]) (g.logBytes + turn.frame.length)
    g.logFirstTurn g.sealedBeforeLog
  have low := files.low
  have high := files.high
  have next := files.nextTurn
  have size : g.log.length = ledger.length - (g.logFirstTurn - first) := by
    rw [← length_drop, ← files.window, length_map]
  refine ⟨?_, ?_, ?_, ?_, ?_⟩
  · show g.nextTurn + 1 = _
    rw [next, length_append, length_singleton, Nat.add_assoc]
  · show first ≤ (Game.trimTurns ..).2.2.1
    rw [begins]
    omega
  · show (Game.trimTurns ..).2.2.1 ≤ g.nextTurn + 1
    rw [length_append, length_singleton] at inside
    rw [begins]
    omega
  · show (Game.trimTurns ..).1.map LoggedTurn.frame = (ledger ++ [turn.frame]).drop ((Game.trimTurns ..).2.2.1 - first)
    have split : g.logFirstTurn + count - first = g.logFirstTurn - first + count := by omega
    have short : g.logFirstTurn - first ≤ ledger.length := by omega
    rw [kept, begins, map_drop, map_append, files.window, split, ← drop_drop,
      drop_append_of_le_length short]
    rfl
  · intro index frame found
    rcases Nat.lt_or_ge index ledger.length with old | new
    · rw [getElem?_append_left old] at found
      exact files.numbered index frame found
    rw [getElem?_append_right new] at found
    obtain ⟨last, same⟩ := List.getElem?_eq_some_iff.mp found
    have zero : index - ledger.length = 0 := Nat.lt_one_iff.mp last
    have here : first + index = g.nextTurn := by omega
    rw [here]
    simp only [zero, getElem_cons_zero] at same
    rw [← same]
    exact carries

variable {frames : List Bytes}

theorem sealBatches_files {frontier : Nat} {batches : List (List Event)} {g' : Game}
    (sealed : Game.sealBatches frontier batches g = (g', .ok frames)) (files : g.Files first ledger) :
    g'.Files first (ledger ++ frames) := by
  induction batches generalizing g ledger frames with
  | nil =>
    cases sealed
    rw [append_nil]
    exact files
  | cons events rest ih =>
    unfold Game.sealBatches at sealed
    dsimp only at sealed
    split at sealed
    · cases sealed
    rename_i frame encoded
    split at sealed
    · next g'' frames' later =>
      cases sealed
      have kept := ih later (files.keep ⟨_, rfl, .inl encoded⟩)
      rw [append_assoc] at kept
      exact kept
    · cases sealed

theorem sealPending_files {frontier : Nat} {g' : Game}
    (sealed : g.sealPending frontier = (g', .ok frames)) (files : g.Files first ledger) :
    g'.Files first (ledger ++ frames) := by
  unfold Game.sealPending at sealed
  split at sealed
  · next middle frames' batched =>
    cases sealed
    have files' : ({ g with pending := [] } : Game).Files first ledger :=
      ⟨files.nextTurn, files.low, files.high, files.window, files.numbered⟩
    have kept := sealBatches_files batched files'
    exact ⟨kept.nextTurn, kept.low, kept.high, kept.window, kept.numbered⟩
  · cases sealed

/-- A member's connection carries the ledger from the start of its stream on. -/
def Carried (out : List Output) (first : Nat) (ledger : List Bytes) (member : Member) : Prop :=
  ∃ link start frames, member.link = some link ∧ channel out member.player link = some (start, frames) ∧
    first ≤ start.nextTurn ∧ start.nextTurn ≤ first + ledger.length ∧ frames = ledger.drop (start.nextTurn - first)

section Carried
variable {out : List Output} {first : Nat} {ledger : List Bytes} {member member' : Member}

section
variable (carried : Carried out first ledger member)
include carried

theorem Carried.touched (player : member'.player = member.player)
    (link : member'.link = member.link) : Carried out first ledger member' := by
  obtain ⟨link', start, frames, linked, got, low, high, same⟩ := carried
  exact ⟨link', start, frames, link.trans linked, player ▸ got, low, high, same⟩

theorem Carried.told {output : Output}
    (other : ∀ link got, member.link = some link → channelStep member.player link got output = got) :
    Carried (out ++ [output]) first ledger member := by
  obtain ⟨link, start, frames, linked, got, low, high, same⟩ := carried
  refine ⟨link, start, frames, linked, ?_, low, high, same⟩
  rw [channel_push, other link _ linked, got]

theorem Carried.pushed {frame : Bytes} {link : UInt64} (linked : member.link = some link) :
    Carried (out ++ [.turn member.player link (.frame frame)]) first (ledger ++ [frame]) member := by
  obtain ⟨link', start, frames, linked', got, low, high, same⟩ := carried
  cases linked.symm.trans linked'
  refine ⟨link, start, frames ++ [frame], linked, ?_, low, ?_, ?_⟩
  · rw [channel_push, got]
    simp [channelStep]
  · rw [length_append]
    omega
  · rw [same, drop_append_of_le_length (by omega)]

end

theorem channelStep_other {player other : PlayerId} {link link' : UInt64} {feed : TurnFeed}
    {got : Option (TurnStart × List Bytes)} (different : other ≠ player) :
    channelStep player link got (.turn other link' feed) = got :=
  if_neg fun same => different same.1

end Carried

namespace Room
variable {σ : Type} {r r' : Room σ} {o : Oracle} {first : Nat} {before ledger : List Bytes}

/-- Only connections, outputs and the oracle's count differ, and nobody gains a stream. -/
def Wired (r r' : Room σ) : Prop :=
  ∃ members out calls, r' = { r with members, out, calls } ∧ Forall₂ (Touch r.phase) r.members members

theorem Severed.wired (severed : r.Severed r') : r.Wired r' := by
  obtain ⟨members, out, calls, same, cut⟩ := severed
  refine ⟨members, out, calls, same, cut.imp fun member member' cut => ?_⟩
  rcases cut with rfl | rfl
  · exact Touch.refl _ _
  · exact Touch.unlinked _ _

theorem publishFrame_wired (frame : Bytes) : r.Wired (publishFrame o r frame) := (publishFrame_severed frame).wired

theorem publishFrames_wired (frames : List Bytes) : r.Wired (frames.foldl (publishFrame o) r) :=
  (publishFrames_severed frames).wired

structure Delivered (r : Room σ) (first : Nat) (ledger : List Bytes) : Prop where
  players : (r.members.map Member.player).Nodup
  streams : ∀ member ∈ r.members, member.streaming = true → Carried r.out first ledger member

theorem player_unique {members : List Member} (distinct : (members.map Member.player).Nodup) {i j : Nat} {a b : Member}
    (left : members[i]? = some a) (right : members[j]? = some b) (same : a.player = b.player) : i = j := by
  have inside : i < (members.map Member.player).length := by
    rw [length_map]
    exact (List.getElem?_eq_some_iff.mp left).1
  refine (getElem?_inj inside distinct).mp ?_
  rw [getElem?_map, getElem?_map, left, right, Option.map_some, Option.map_some, same]

theorem mem_setMember {member other : Member} (seated : other ∈ (r.setMember index member).members) :
    other = member ∨ ∃ position ≠ index, r.members[position]? = some other := by
  obtain ⟨position, there⟩ := mem_iff_getElem?.mp seated
  rw [show (r.setMember index member).members = r.members.set index member from rfl, getElem?_set] at there
  split at there
  · split at there
    · exact .inl (Option.some.inj there).symm
    · cases there
  · next apart => exact .inr ⟨position, Ne.symm apart, there⟩

/-- How far publishing a frame has come: members before `count` have it. -/
structure Publishing (r : Room σ) (first : Nat) (ledger : List Bytes) (frame : Bytes) (count : Nat) : Prop where
  players : (r.members.map Member.player).Nodup
  streams : ∀ index member, r.members[index]? = some member → member.streaming = true →
    Carried r.out first (if index < count then ledger ++ [frame] else ledger) member

theorem Publishing.skipped {frame : Bytes} {count : Nat} (publishing : r.Publishing first ledger frame count)
    (idle : r.members[count]?.any Member.streaming = false) : r.Publishing first ledger frame (count + 1) := by
  refine ⟨publishing.players, fun index member seat streaming => ?_⟩
  have other : index ≠ count := by
    rintro rfl
    rw [seat] at idle
    simp [streaming] at idle
  have same : index < count + 1 ↔ index < count := by omega
  simp only [same]
  exact publishing.streams index member seat streaming

theorem Publishing.sent {frame : Bytes} {count : Nat} (publishing : r.Publishing first ledger frame count)
    (streaming : r.members[count]?.any Member.streaming = true) :
    (r.sendTurn o count (.frame frame)).Publishing first ledger frame (count + 1) := by
  obtain ⟨member, seat, streams⟩ : ∃ member, r.members[count]? = some member ∧ member.streaming = true := by
    cases seat : r.members[count]? with
    | none => rw [seat] at streaming; cases streaming
    | some member =>
      rw [seat] at streaming
      exact ⟨member, rfl, streaming⟩
  have carried := publishing.streams count member seat streams
  rw [if_neg (Nat.lt_irrefl _)] at carried
  have ⟨link, _, _, linked, _⟩ := carried
  have others : ∀ index other, r.members[index]? = some other → index ≠ count → other.streaming = true →
      Carried r.out first (if index < count + 1 then ledger ++ [frame] else ledger) other := by
    intro index other there apart streams
    have same : index < count + 1 ↔ index < count := by omega
    simp only [same]
    exact publishing.streams index other there streams
  have distinct : ∀ index other, r.members[index]? = some other → index ≠ count → member.player ≠ other.player :=
    fun index other there apart same => apart (player_unique publishing.players there seat same.symm)
  unfold sendTurn sendLinked
  rw [seat]
  dsimp only
  rw [linked]
  unfold trySend
  dsimp only
  by_cases done : o.send r.calls = .done
  · rw [if_pos done, if_pos done]
    refine ⟨publishing.players, fun index other there streams' => ?_⟩
    by_cases here : index = count
    · subst here
      cases seat.symm.trans there
      rw [if_pos (Nat.lt_succ_self _)]
      exact carried.pushed linked
    · exact (others index other there here streams').told fun _ _ _ =>
        channelStep_other (distinct index other there here)
  · rw [if_neg done, if_neg done]
    unfold dropLink
    rw [seat]
    dsimp only
    rw [linked]
    dsimp only
    -- The member whose send failed loses its stream; nobody else notices.
    have kept : ∀ out, (∀ index other, r.members[index]? = some other → index ≠ count → other.streaming = true →
        Carried out first (if index < count + 1 then ledger ++ [frame] else ledger) other) →
        ({ r with calls := r.calls + 1, out, members := r.members.set count member.unlinked } : Room σ).Publishing
          first ledger frame (count + 1) := by
      intro out told
      have same : (r.members.set count member.unlinked).map Member.player = r.members.map Member.player :=
        map_player_set seat rfl
      refine ⟨same ▸ publishing.players, fun index other there streams' => ?_⟩
      by_cases here : index = count
      · subst here
        rw [getElem?_set_self (List.getElem?_eq_some_iff.mp seat).1] at there
        cases there
        cases streams'
      · rw [getElem?_set_ne (Ne.symm here)] at there
        exact told index other there here streams'
    split
    · exact kept _ fun index other there here streams' => (others index other there here streams').told fun _ _ _ => rfl
    · exact kept _ others

theorem sendLinked_sealed {index : Nat} {output : PlayerId → UInt64 → Output}
    (other : ∀ player link, sealedFrames [output player link] = []) :
    sealedFrames (r.sendLinked o index output).out = sealedFrames r.out := by
  unfold sendLinked
  split
  · rfl
  rename_i member seat
  split
  · rfl
  rename_i link linked
  unfold trySend
  dsimp only
  by_cases done : o.send r.calls = .done
  · rw [if_pos done, if_pos done]
    unfold emit
    rw [sealedFrames_push, other, append_nil]
  · rw [if_neg done, if_neg done]
    unfold dropLink
    rw [seat]
    dsimp only
    rw [linked]
    dsimp only
    split
    · unfold setMember emit
      rw [sealedFrames_push]
      exact append_nil _
    · rfl

theorem publishFrame_sealed (frame : Bytes) :
    sealedFrames (publishFrame o r frame).out = sealedFrames r.out ++ [frame] := by
  refine @Run.foldl_preserves _ _ _ (fun room : Room σ => sealedFrames room.out = sealedFrames r.out ++ [frame])
    (fun room index sealed => ?_) _ (sealedFrames_push r.out _) _
  split
  · unfold sendTurn
    rw [sendLinked_sealed fun _ _ => rfl]
    exact sealed
  · exact sealed

theorem publishFrames_sealed (frames : List Bytes) :
    sealedFrames (frames.foldl (publishFrame o) r).out = sealedFrames r.out ++ frames := by
  induction frames generalizing r with
  | nil => exact (append_nil _).symm
  | cons frame frames ih => rw [foldl_cons, ih, publishFrame_sealed, append_assoc, singleton_append]

theorem closeAll_sealed (code : CloseCode) (reason : String) :
    sealedFrames (r.closeAll code reason).out = sealedFrames r.out := by
  refine @Run.foldl_preserves _ _ _ (fun room : Room σ => sealedFrames room.out = sealedFrames r.out)
    (fun room index sealed => ?_) _ rfl _
  unfold closeLink
  split
  · exact sealed
  split
  · unfold setMember emit
    rw [sealedFrames_push]
    exact (append_nil _).trans sealed
  · exact sealed

theorem publishFrame_delivered (frame : Bytes) (delivered : r.Delivered first ledger) :
    (publishFrame o r frame).Delivered first (ledger ++ [frame]) := by
  let send := fun (room : Room σ) (index : Nat) =>
    if room.members[index]?.any Member.streaming then room.sendTurn o index (.frame frame) else room
  have begun : (r.emit (.sealed frame)).Publishing first ledger frame 0 := by
    refine ⟨delivered.players, fun index member seat streaming => ?_⟩
    exact (delivered.streams member (mem_of_getElem? seat) streaming).told fun _ _ _ => rfl
  have along : ∀ count, ((range count).foldl send (r.emit (.sealed frame))).Publishing first ledger frame count := by
    intro count
    induction count with
    | zero => exact begun
    | succ count ih =>
      rw [range_succ, foldl_append, foldl_cons, foldl_nil]
      dsimp only [send]
      split
      · next streaming => exact ih.sent streaming
      · next idle => exact ih.skipped (Bool.eq_false_iff.mpr idle)
  have publishing := along r.members.length
  obtain ⟨members, _, _, wired, touch⟩ := publishFrame_wired frame
  refine ⟨publishing.players, fun member seated streaming => ?_⟩
  obtain ⟨index, seat⟩ := mem_iff_getElem?.mp seated
  have inside : index < r.members.length := by
    rw [wired] at seat
    rw [touch.length_eq]
    exact (List.getElem?_eq_some_iff.mp seat).1
  have carried := publishing.streams index member seat streaming
  rw [if_pos inside] at carried
  exact carried

theorem publishFrames_delivered (frames : List Bytes) (delivered : r.Delivered first ledger) :
    (frames.foldl (publishFrame o) r).Delivered first (ledger ++ frames) := by
  induction frames generalizing r ledger with
  | nil =>
    rw [append_nil]
    exact delivered
  | cons frame frames ih =>
    have all := ih (publishFrame_delivered (o := o) frame delivered)
    rw [append_assoc] at all
    exact all

/-- What holds of a room that had some frames `before`, the first of them of turn `first`. -/
structure Streams (first : Nat) (before : List Bytes) (r : Room σ) : Prop where
  delivered : r.Delivered first (before ++ sealedFrames r.out)
  lobby : r.phase = .lobby → first = 1 ∧ before ++ sealedFrames r.out = [] ∧ ∀ member ∈ r.members,
    member.streaming = false
  -- A room that failed to seal has no streams, and its game is not read any more.
  files : ∀ game, r.phase = .running game → r.closed = true ∧ (∀ member ∈ r.members, member.streaming = false) ∨
    game.Files first (before ++ sealedFrames r.out)

namespace Streams

variable {game : Game} {member : Member} {index : Nat} {game' : Game}

section
variable (streams : r.Streams first before)
include streams

theorem filed (live : r.closed = false) (running : r.phase = .running game) :
    game.Files first (before ++ sealedFrames r.out) := by
  rcases streams.files game running with ⟨closed, _⟩ | files
  · cases live.symm.trans closed
  · exact files

theorem calmly (phase : r'.phase = r.phase) (closed : r'.closed = r.closed)
    (sealed : sealedFrames r'.out = sealedFrames r.out) (idle : (∀ member ∈ r.members, member.streaming = false) →
      ∀ member ∈ r'.members, member.streaming = false)
    (delivered : r'.Delivered first (before ++ sealedFrames r.out)) : r'.Streams first before := by
  refine ⟨sealed ▸ delivered, ?_, ?_⟩
  · intro lobby
    rw [phase] at lobby
    obtain ⟨one, empty, silent⟩ := streams.lobby lobby
    exact ⟨one, sealed ▸ empty, idle silent⟩
  · intro game running
    rw [phase] at running
    rw [closed, sealed]
    exact (streams.files game running).imp_left fun ⟨closed, silent⟩ => ⟨closed, idle silent⟩

theorem told {output : Output} (aside : r.Aside output) : (r.emit output).Streams first before := by
  have sealed : sealedFrames (r.out ++ [output]) = sealedFrames r.out := by
    rw [sealedFrames_push]
    cases output with
    | sealed frame => exact aside.elim
    | _ => exact append_nil _
  refine streams.calmly rfl rfl sealed (fun silent => silent)
    ⟨streams.delivered.players, fun member seated streaming => ?_⟩
  refine (streams.delivered.streams member seated streaming).told fun link got linked => ?_
  cases output with
  | turn player link' feed =>
    refine if_neg fun same => ?_
    obtain ⟨rfl, rfl⟩ := same
    exact aside member seated rfl streaming linked
  | _ => rfl

theorem touched {members : List Member} (touch : Forall₂ (Touch r.phase) r.members members) :
    ({ r with members } : Room σ).Streams first before := by
  have found : ∀ member' ∈ members, ∃ member ∈ r.members, Touch r.phase member member' := by
    intro member' seated
    obtain ⟨index, inside, rfl⟩ := getElem_of_mem seated
    have inside' : index < r.members.length := touch.length_eq ▸ inside
    exact ⟨r.members[index], getElem_mem inside', touch.get inside' inside⟩
  refine streams.calmly rfl rfl rfl ?_ ⟨?_, ?_⟩
  · intro silent member' seated
    obtain ⟨member, there, related⟩ := found member' seated
    refine Bool.eq_false_iff.mpr fun streaming => ?_
    have streamed := (related.streaming streaming).1
    rw [silent member there] at streamed
    cases streamed
  · rw [map_player_touch touch]
    exact streams.delivered.players
  · intro member' seated streaming
    obtain ⟨member, there, related⟩ := found member' seated
    obtain ⟨streamed, link⟩ := related.streaming streaming
    exact (streams.delivered.streams member there streamed).touched related.player link

theorem opened {member' : Member} {link : UInt64} {start : TurnStart}
    {backlog : List Bytes} (live : r.closed = false) (running : r.phase = .running game)
    (covers : game.Covers start backlog) (seat : r.members[index]? = some member)
    (player : member'.player = member.player) (linked : member'.link = some link) :
    ((r.emit (.turn member.player link (.opened start backlog))).setMember index member').Streams first before := by
  have files := streams.filed live running
  obtain ⟨low, high, same⟩ := files.covered covers
  have sealed : sealedFrames (r.out ++ [.turn member.player link (.opened start backlog)]) = sealedFrames r.out := by
    rw [sealedFrames_push]
    exact append_nil _
  refine ⟨⟨?_, ?_⟩, ?_, ?_⟩
  · show ((r.members.set index member').map Member.player).Nodup
    rw [map_player_set seat player]
    exact streams.delivered.players
  · intro other seated streaming
    show Carried (r.out ++ [.turn member.player link (.opened start backlog)]) first _ other
    rw [show sealedFrames ((r.emit _).setMember index member').out = sealedFrames r.out from sealed]
    rcases mem_setMember seated with rfl | ⟨position, here, there⟩
    · refine ⟨link, start, backlog, linked, ?_, low, high, same⟩
      rw [channel_push, player]
      simp [channelStep]
    · have apart : member.player ≠ other.player := fun same =>
        here (player_unique streams.delivered.players there seat same.symm)
      exact (streams.delivered.streams other (mem_of_getElem? there) streaming).told fun _ _ _ =>
        channelStep_other apart
  · intro lobby
    rw [show ((r.emit _).setMember index member').phase = r.phase from rfl, running] at lobby
    cases lobby
  · intro game' running'
    rw [show ((r.emit _).setMember index member').phase = r.phase from rfl, running] at running'
    cases running'
    refine .inr ?_
    rw [show sealedFrames ((r.emit _).setMember index member').out = sealedFrames r.out from sealed]
    exact files

theorem played {state : σ} (live : r.closed = false) (running : r.phase = .running game)
    (files : game.Files first (before ++ sealedFrames r.out) → game'.Files first (before ++ sealedFrames r.out)) :
    ({ r with phase := .running game', state } : Room σ).Streams first before := by
  refine ⟨⟨streams.delivered.players, streams.delivered.streams⟩, nofun, ?_⟩
  rintro _ ⟨⟩
  exact .inr (files (streams.filed live running))

theorem calm (live : r.closed = false) (calm : Calm r r') : r'.Streams first before := by
  cases calm with
  | soft =>
    exact streams.calmly rfl rfl rfl (fun silent => silent) ⟨streams.delivered.players, streams.delivered.streams⟩
  | told aside => exact streams.told aside
  | touched touch => exact streams.touched touch
  | opened running covers seat player _ linked => exact streams.opened live running covers seat player linked
  | played running soft => exact streams.played live running fun files => files.soft soft

theorem seated (idle : member.streaming = false) (fresh : ∀ other ∈ r.members, other.player ≠ member.player) :
    ({ r with members := r.members ++ [member] } : Room σ).Streams first before := by
  have silent : ∀ other ∈ r.members ++ [member], other.streaming = true → other ∈ r.members := by
    intro other seated streaming
    rcases mem_append.mp seated with old | new
    · exact old
    · rw [mem_singleton.mp new, idle] at streaming
      cases streaming
  refine streams.calmly rfl rfl rfl ?_ ⟨?_, ?_⟩
  · intro quiet other seated
    refine Bool.eq_false_iff.mpr fun streaming => ?_
    rw [quiet other (silent other seated streaming)] at streaming
    cases streaming
  · show ((r.members ++ [member]).map Member.player).Nodup
    rw [map_append, nodup_append]
    refine ⟨streams.delivered.players, nodup_singleton _, fun player present other same => ?_⟩
    obtain ⟨there, seated, rfl⟩ := mem_map.mp present
    rw [map_singleton, mem_singleton] at same
    rw [same]
    exact fresh there seated
  · exact fun other seated streaming => streams.delivered.streams other (silent other seated streaming) streaming

theorem unseated {out : List Output} (live : r.closed = false) (seat : r.members[index]? = some member)
    (farewell : out = r.out ∨ ∃ link, out = r.out ++ [.turn member.player link .close]) :
    ({ r with members := r.members.eraseIdx index, out } : Room σ).Streams first before := by
  have sealed : sealedFrames out = sealedFrames r.out := by
    rcases farewell with rfl | ⟨link, rfl⟩
    · rfl
    · rw [sealedFrames_push]
      exact append_nil _
  have left : ∀ other ∈ r.members.eraseIdx index, other ∈ r.members := fun _ => mem_of_mem_eraseIdx
  refine ⟨⟨?_, ?_⟩, ?_, ?_⟩
  · exact streams.delivered.players.sublist ((eraseIdx_sublist r.members index).map _)
  · intro other seated streaming
    show Carried out first (before ++ sealedFrames out) other
    rw [sealed]
    have carried := streams.delivered.streams other (left other seated) streaming
    rcases farewell with rfl | ⟨link, rfl⟩
    · exact carried
    · obtain ⟨position, apart, there⟩ := mem_eraseIdx_iff_getElem?.mp seated
      exact carried.told fun _ _ _ => channelStep_other fun same =>
        apart (player_unique streams.delivered.players there seat same.symm)
  · intro lobby
    obtain ⟨one, empty, silent⟩ := streams.lobby lobby
    exact ⟨one, sealed ▸ empty, fun other seated => silent other (left other seated)⟩
  · intro game running
    exact .inr (sealed ▸ streams.filed live running)

theorem books (live : r.closed = false) (members : r'.members = r.members)
    (phase : r'.phase = r.phase) (out : r'.out = r.out) : r'.Streams first before := by
  refine ⟨⟨?_, ?_⟩, ?_, ?_⟩
  · rw [members]
    exact streams.delivered.players
  · rw [members, out]
    exact streams.delivered.streams
  · rw [members, phase, out]
    exact streams.lobby
  · rw [phase, out]
    exact fun _ running => .inr (streams.filed live running)

theorem published {frontier : Nat} {saves : Saves} (live : r.closed = false) (running : r.phase = .running game)
    (sealed : game.sealPending frontier = (game', .ok frames)) :
    ((r.withGame { game' with saves }).publish o frames).Streams first before := by
  have files : ({ game' with saves } : Game).Files first (before ++ sealedFrames r.out ++ frames) := by
    have kept := sealPending_files sealed (streams.filed live running)
    exact ⟨kept.nextTurn, kept.low, kept.high, kept.window, kept.numbered⟩
  unfold publish
  dsimp only
  obtain ⟨disk, calls, log, logged⟩ := logFrames_eq frames
  rw [logged]
  generalize (r.withGame { game' with saves }).compaction.map _ = compaction
  generalize booked : ({ r.withGame { game' with saves } with disk, calls, log, compaction } : Room σ) = room
  have delivered : room.Delivered first (before ++ sealedFrames r.out) :=
    booked ▸ ⟨streams.delivered.players, streams.delivered.streams⟩
  have delivered' := publishFrames_delivered (o := o) frames delivered
  have seals := publishFrames_sealed (o := o) (r := room) frames
  have wired := publishFrames_wired (o := o) (r := room) frames
  generalize frames.foldl (publishFrame o) room = sent at delivered' seals wired
  obtain ⟨members, out, calls', rfl, _⟩ := wired
  subst booked
  obtain ⟨compaction', compactAt, compacted⟩ := startCompaction_eq
  rw [compacted]
  refine books (r := { r.withGame { game' with saves } with disk, log, compaction, members, out, calls := calls' })
    ?_ live rfl rfl rfl
  have total : before ++ sealedFrames out = before ++ sealedFrames r.out ++ frames := by
    rw [append_assoc]
    exact congrArg _ seals
  refine ⟨?_, nofun, ?_⟩
  · dsimp only
    rw [total]
    exact delivered'
  rintro _ ⟨⟩
  rw [total]
  exact .inr files

theorem failed {code : CloseCode} {reason : String} :
    ((r.withGame game').closeAll code reason).Streams first before := by
  obtain ⟨members, out, closed, players, silent⟩ := closeAll_silent code reason
  rw [closed]
  refine ⟨⟨?_, fun member seated streaming => ?_⟩, nofun, ?_⟩
  · exact players.symm ▸ streams.delivered.players
  · rw [(silent member seated).2] at streaming
    cases streaming
  · rintro _ ⟨⟩
    exact .inl ⟨rfl, fun member seated => (silent member seated).2⟩

theorem started {history : UInt64} {now : Instant} {calls : Nat} {content : Option ContentFingerprint}
    (lobby : r.phase = .lobby) : ({ r with
      calls
      content
      state := (r.seatMembers (.new r.settings history now)).2
      phase := .running (r.seatMembers (.new r.settings history now)).1 } : Room σ).Streams first before := by
  obtain ⟨one, empty, silent⟩ := streams.lobby lobby
  refine ⟨⟨streams.delivered.players, streams.delivered.streams⟩, nofun, ?_⟩
  rintro _ ⟨⟩
  refine .inr ?_
  obtain ⟨_, _, _, game, _⟩ := r.seatMembers_game (.new r.settings history now)
  rw [game, empty, one]
  exact ⟨rfl, le_rfl, le_rfl, rfl, nofun⟩

end

theorem ordered (body : EventBody) (streams : r.Streams first before) (live : r.closed = false)
    (running : r.phase = .running game) : (r.append game body).Streams first before :=
  streams.played live running fun files => files.append body r.ruleset r.state

section
variable (streams : r.Streams first before)
include streams

theorem departed {kicked : Bool} {calls : Nat} {out : List Output}
    (live : r.closed = false) (seat : r.members[index]? = some member)
    (farewell : out = r.out ∨ ∃ link, out = r.out ++ [.turn member.player link .close]) :
    ({ (r.depart index member.player kicked).handOn member.player with calls, out } : Room σ).Streams first before := by
  cases running : r.phase with
  | lobby =>
    rw [depart_lobby _ _ _ running]
    exact (streams.unseated live seat farewell).books live (handOn_table _).1 (handOn_table _).2 rfl
  | running game =>
    rw [depart_running _ _ _ running]
    have ordered := streams.ordered (.playerLeft member.player kicked) live running
    exact (ordered.unseated live seat farewell).books live (handOn_table _).1 (handOn_table _).2 rfl

theorem calms (live : r.closed = false) (calms : Calms r r') : r'.Streams first before := by
  induction calms with
  | refl => exact streams
  | tail calms step ih => exact ih.calm ((Calms.closed calms).trans live) step

theorem deed {mode : Mode} (deed : Deed mode o r r') : r'.Streams first before := by
  cases deed with
  | act live act => exact streams.calms live act.calms
  | ordered live running _ => exact streams.ordered _ live running
  | sat new now live lobby fresh _ => exact streams.seated rfl fresh
  | entered new now live running fresh _ => exact (streams.ordered _ live running).seated rfl fresh
  | departed live seat farewell => exact streams.departed live seat farewell
  | expired live _ => exact streams.books live rfl rfl rfl
  | started live lobby _ _ => exact streams.started lobby
  | logOpened live _ _ _ _ =>
    obtain ⟨_, _, _, logged⟩ := openLog_eq _
    rw [logged]
    exact streams.books live rfl rfl rfl
  | saved now busy live running free save =>
    obtain ⟨rfl, sealed, _⟩ := Game.save_eq save
    exact (streams.ordered .save live running).published live rfl sealed
  | unsaved live running save =>
    obtain ⟨rfl, sealed, _⟩ := Game.save_eq save
    exact (streams.ordered .save live running).failed
  | @sealed game game' frontier pacer frames now live running paced sealed =>
    have ticked : r.Calm (r.withGame { game with lastTick := now, pacer }) := .played running ⟨_, _, _, _, _, _, rfl⟩
    exact (streams.calm live ticked).published live rfl sealed
  | unsealed => exact streams.failed

theorem deeds {mode : Mode} (deeds : Deeds mode o r r') : r'.Streams first before := by
  induction deeds with
  | refl => exact streams
  | tail _ deed ih => exact ih.deed deed

end

end Streams

end Room
end Tpf3Mp.Server
