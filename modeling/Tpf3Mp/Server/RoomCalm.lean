import Tpf3Mp.Server.RoomActs

/-!
Most of what a room does changes neither its log nor who sits in it. Such steps are calm; everything a
room does but for ordering an event, sealing a turn, and seating players is made of them.
-/

namespace Tpf3Mp.Server
open Codec Proto Data Relation

/-- The start of a stream that the game's window still covers. -/
structure Game.Covers (g : Game) (start : TurnStart) (backlog : List Bytes) : Prop where
  low : g.logFirstTurn ≤ start.nextTurn
  high : start.nextTurn ≤ g.nextTurn
  backlog : backlog = (g.log.drop (start.nextTurn - g.logFirstTurn)).map LoggedTurn.frame

namespace Room
variable {σ : Type}

/-- An output that no member's stream is made of. -/
def Aside (r : Room σ) : Output → Prop
  | .control .. | .closed .. => True
  | .turn player link _ => ∀ member ∈ r.members, member.player = player → member.streaming = true →
      member.link ≠ some link
  | .sealed _ => False

/-- A change of a seat that opens no stream. What players declared is fixed once the game runs. -/
structure Touch (phase : Phase) (member member' : Member) : Prop where
  player : member'.player = member.player
  content : phase = .lobby ∨ member'.content = member.content
  streaming : member'.streaming = true → member.streaming = true ∧ member'.link = member.link

inductive Calm : Room σ → Room σ → Prop where
  | soft (r : Room σ) (passwordGuard : PasswordGuard) (unattendedSince : Option Instant) (calls : Nat) :
      Calm r { r with passwordGuard, unattendedSince, calls }
  | told {r : Room σ} {output : Output} (aside : r.Aside output) : Calm r (r.emit output)
  | touched {r : Room σ} {members : List Member} (touch : List.Forall₂ (Touch r.phase) r.members members) :
      Calm r { r with members }
  | opened {r : Room σ} {game : Game} {index : Nat} {member member' : Member} {link : UInt64} {start : TurnStart}
      {backlog : List Bytes} (running : r.phase = .running game) (covers : game.Covers start backlog)
      (seat : r.members[index]? = some member) (player : member'.player = member.player)
      (content : member'.content = member.content) (linked : member'.link = some link) :
      Calm r ((r.emit (.turn member.player link (.opened start backlog))).setMember index member')
  | played {r : Room σ} {game game' : Game} (running : r.phase = .running game) (soft : game.Soft game') :
      Calm r (r.withGame game')

abbrev Calms : Room σ → Room σ → Prop := ReflTransGen Calm

section Steps
variable {r r' : Room σ} {mode : Mode} {phase : Phase}

theorem Calms.closed (calms : Calms r r') : r'.closed = r.closed := by
  induction calms with
  | refl => rfl
  | tail _ step ih => cases step <;> exact ih

theorem map_player_touch {members members' : List Member} (touch : List.Forall₂ (Touch phase) members members') :
    members'.map Member.player = members.map Member.player := by
  induction touch with
  | nil => rfl
  | cons first _ ih => rw [List.map_cons, List.map_cons, ih, first.player]

theorem Touch.refl (phase : Phase) (member : Member) : Touch phase member member :=
  ⟨rfl, .inr rfl, fun streaming => ⟨streaming, rfl⟩⟩

theorem Touch.unlinked (phase : Phase) (member : Member) : Touch phase member member.unlinked :=
  ⟨rfl, .inr rfl, nofun⟩

theorem touched_refl (phase : Phase) (members : List Member) : List.Forall₂ (Touch phase) members members :=
  List.forall₂_same.mpr fun member _ => Touch.refl phase member

theorem touched_set {members : List Member} {index : Nat} {member member' : Member}
    (seat : members[index]? = some member) (touch : Touch phase member member') :
    List.Forall₂ (Touch phase) members (members.set index member') := by
  induction members generalizing index with
  | nil => exact .nil
  | cons first members ih =>
    cases index with
    | zero =>
      cases seat
      exact .cons touch (touched_refl phase members)
    | succ index => exact .cons (Touch.refl phase first) (ih seat)

theorem setMember_calm {index : Nat} {member member' : Member} (seat : r.members[index]? = some member)
    (touch : Touch r.phase member member') : Calms r (r.setMember index member') :=
  .single (.touched (touched_set seat touch))

theorem streamAfter_covers {game : Game} {resume : Option Resume} {stream : Stream} {world : Option WorldOffer}
    (room : RoomId) (settings : RoomSettings) (rules : RulesName) (granted : game.streamAfter resume = .ok stream) :
    game.Covers (game.turnStart room settings rules stream world) stream.backlog := by
  obtain ⟨first, _, granted⟩ := Run.bind_ok.mp granted
  split at granted
  · cases granted
  rename_i inside
  cases granted
  obtain ⟨low, high⟩ := not_or.mp inside
  exact ⟨not_lt.mp high, not_lt.mp low, rfl⟩

theorem feedFrom_covers {game : Game} {room : RoomId} {settings : RoomSettings} {rules : RulesName} {agreed : Agreed}
    {feed : TurnFeed} {streamFrom : Nat} (granted : game.feedFrom room settings rules agreed = .ok (feed, streamFrom)) :
    ∃ start backlog, feed = .opened start backlog ∧ game.Covers start backlog := by
  obtain ⟨stream, fromSave, granted⟩ := Run.bind_ok.mp granted
  obtain ⟨after, granted', checked⟩ := Run.bind_ok.mp fromSave
  split at checked
  · cases checked
  · cases checked
    cases granted
    exact ⟨_, _, rfl, streamAfter_covers room settings rules granted'⟩

theorem demote_touch (game : Game) (timeouts : Timeouts) (now : Instant) (member : Member) :
    Touch phase member (demote game timeouts now member) := by
  unfold demote
  split
  · exact Touch.refl phase member
  split
  · exact ⟨rfl, .inr rfl, fun streaming => ⟨streaming, rfl⟩⟩
  split
  · split
    · exact ⟨rfl, .inr rfl, fun streaming => ⟨streaming, rfl⟩⟩
    · exact Touch.refl phase member
  · split
    · exact ⟨rfl, .inr rfl, fun streaming => ⟨streaming, rfl⟩⟩
    · exact Touch.refl phase member
  · exact Touch.refl phase member

theorem Act.calms (act : Act mode r r') : Calms r r' := by
  cases act with
  | noted passwordGuard unattendedSince calls => exact .single (.soft r passwordGuard unattendedSince calls)
  | told | hungUp => exact .single (.told trivial)
  | adjusted seat declared => exact setMember_calm seat ⟨rfl, declared, fun streaming => ⟨streaming, rfl⟩⟩
  | unlinked seat => exact setMember_calm seat (Touch.unlinked _ _)
  | progressed _ seat | diverged _ seat => exact setMember_calm seat ⟨rfl, .inr rfl, fun streaming => ⟨streaming, rfl⟩⟩
  | @demoted game now running =>
    refine .single (.touched ?_)
    rw [List.forall₂_map_right_iff, List.forall₂_same]
    exact fun member _ => demote_touch game r.timeouts now member
  | served now running current fed seat linked =>
    obtain ⟨start, backlog, same, covers⟩ := feedFrom_covers fed
    cases same
    exact .single (.opened running covers seat rfl rfl linked)
  | unserved seat | returned _ _ seat | awaiting _ _ seat | unresumed _ _ _ seat | unbegun _ _ _ seat =>
    exact setMember_calm seat ⟨rfl, .inr rfl, nofun⟩
  | resumed running granted seat same =>
    exact .single (.opened running (streamAfter_covers r.id r.settings r.rules granted) seat rfl rfl rfl)
  | begun running unsealed covers worldless empty seat linked =>
    refine .single (.opened running ⟨covers.1, le_of_eq covers.2, ?_⟩ seat rfl rfl linked)
    rw [empty, List.drop_nil, List.map_nil]
  | timed running | judged _ _ running | kept running | ticked _ running =>
    exact .single (.played running ⟨_, _, _, _, _, _, rfl⟩)

end Steps

end Room
end Tpf3Mp.Server
