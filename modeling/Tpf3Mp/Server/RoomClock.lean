import Tpf3Mp.Server.RoomRun

/-!
A room's clock and the members who hold it. Whatever the room does, the frontier of its turns never
goes back, never runs ahead of a member who follows by more than the widest window, and does not move
at all while someone is still loading.
-/

namespace Tpf3Mp.Server
open Codec Proto Data Relation List

namespace Pacer

theorem window_mono (p : Pacer) {slow fast : Speed} (faster : slow.percent ≤ fast.percent) :
    p.window slow ≤ p.window fast := by
  unfold window
  dsimp only
  generalize paced : (if slow.percent < Speed.normal.percent then Speed.normal else slow) = slow'
  generalize paced' : (if fast.percent < Speed.normal.percent then Speed.normal else fast) = fast'
  have normal : Speed.normal.percent ≤ slow'.percent := by
    rw [← paced]
    split
    · exact UInt16.le_refl _
    · next above => exact UInt16.not_lt.mp above
  have faster' : slow'.percent ≤ fast'.percent := by
    rw [← paced, ← paced']
    split
    · split
      · exact UInt16.le_refl _
      · next above => exact UInt16.not_lt.mp above
    rename_i above
    split
    · next below => exact absurd (UInt16.lt_of_le_of_lt faster below) above
    · exact faster
  -- No pace below the normal one is paused, so both leads are counted in steps.
  have moving (speed : Speed) (above : Speed.normal.percent ≤ speed.percent) : speed.isPaused = false := by
    unfold Speed.isPaused
    rw [beq_eq_false_iff_ne]
    intro still
    rw [still] at above
    exact absurd above (by decide)
  unfold lead
  rw [moving slow' normal, moving fast' (UInt16.le_trans normal faster')]
  have delay := p.stepsIn_mono p.inputDelay faster'
  have ahead := p.stepsIn_mono p.maxAhead faster'
  simp only [Bool.false_eq_true, if_false]
  omega

theorem advance_window (p : Pacer) (elapsed : Duration) (speed other : Speed) (slowest : Option Nat) (sealed : Nat) :
    (p.advance elapsed speed slowest sealed).2.window other = p.window other := by
  have ticked : ∃ ideal remainder, p.tickClock elapsed speed = { p with ideal, remainder } := by
    unfold tickClock
    split
    · exact ⟨_, _, rfl⟩
    · exact ⟨_, _, rfl⟩
  obtain ⟨ideal, remainder, ticked⟩ := ticked
  cases slowest with
  | none => rfl
  | some slowest =>
    unfold advance
    dsimp only
    rw [ticked]
    split <;> rfl

theorem advance_within (p : Pacer) (elapsed : Duration) (speed : Speed) (slowest sealed : Nat) :
    (p.advance elapsed speed (some slowest) sealed).1 ≤ max (slowest + p.window speed) sealed := by
  have same : (p.tickClock elapsed speed).window speed = p.window speed := by
    unfold tickClock
    split <;> rfl
  have capped : satAdd slowest (p.window speed) ≤ slowest + p.window speed := Nat.min_le_left _ _
  unfold advance
  dsimp only
  rw [same]
  split
  · dsimp only
    omega
  · dsimp only
    omega

end Pacer

variable {members : List Member}

theorem slowest_foldl {slowest : Option Nat} :
    let step (slowest : Option Nat) (member : Member) : Option Nat := match member.pace with
      | .following step => some (slowest.elim step (min step))
      | _ => slowest
    ∀ result, members.foldl step slowest = some result →
      (∀ least, slowest = some least → result ≤ least) ∧
      ∀ member ∈ members, ∀ p, member.pace = .following p → result ≤ p := by
  intro step
  induction members generalizing slowest with
  | nil =>
    intro result found
    refine ⟨fun least same => ?_, fun member absent => nomatch absent⟩
    rw [foldl_nil, same] at found
    cases found
    exact le_rfl
  | cons first members ih =>
    intro result found
    obtain ⟨below, each⟩ := ih result found
    refine ⟨fun least same => ?_, fun member among p pace => ?_⟩
    · subst same
      cases pace : first.pace with
      | following p =>
        have low := below (min p least) (by simp [step, pace])
        omega
      | loading => exact below least (by simp [step, pace])
      | catchingUp at_ => exact below least (by simp [step, pace])
    · rcases mem_cons.mp among with rfl | later
      · have low := below (slowest.elim p (min p)) (by simp [step, pace])
        cases slowest with
        | none => exact low
        | some least => exact le_trans low (Nat.min_le_left _ _)
      · exact each member later p pace

theorem slowestPacer_some {slowest : Nat} (found : slowestPacer members = some slowest)
    {member : Member} (seated : member ∈ members) (holds : holdsClock member = true) :
    member.pace ≠ .loading ∧ ∀ p, member.pace = .following p → slowest ≤ p := by
  unfold slowestPacer at found
  dsimp only at found
  have among : member ∈ members.filter holdsClock := mem_filter.mpr ⟨seated, holds⟩
  split at found
  · cases found
  rename_i ready
  refine ⟨fun loading => ready ?_, (slowest_foldl slowest found).2 member among⟩
  rw [any_eq_true]
  exact ⟨member, among, by rw [loading]; rfl⟩

/-- What the clock owes a member who holds it. -/
def Owed (game : Game) (member : Member) : Prop :=
  holdsClock member = true → match member.pace with
    | .loading => game.sealedThrough = 0
    | .following p => p ≤ game.sealedThrough ∧ game.sealedThrough ≤ p + game.pacer.window .maximum
    | .catchingUp _ => True

section Owed
variable {game game' : Game} {member : Member}

theorem owed_catching {at_ : Option Nat} (catching : member.pace = .catchingUp at_) : Owed game member := by
  intro _
  rw [catching]
  trivial

theorem Owed.loading (owed : Owed game member) (loading : member.pace = .loading) (linked : member.link ≠ none) :
    game.sealedThrough = 0 := by
  have holds : holdsClock member = true := by
    cases link : member.link with
    | none => exact absurd link linked
    | some link => simp [holdsClock, loading, link]
  have stands := owed holds
  rw [loading] at stands
  exact stands

theorem Owed.following {p : Nat} (owed : Owed game member) (following : member.pace = .following p)
    (streaming : member.streaming = true) :
    p ≤ game.sealedThrough ∧ game.sealedThrough ≤ p + game.pacer.window .maximum := by
  have stands := owed (by simp [holdsClock, streaming])
  rw [following] at stands
  exact stands

theorem owed_idle (idle : member.streaming = false)
    (loading : member.pace = .loading → member.link ≠ none → game.sealedThrough = 0) : Owed game member := by
  intro holds
  unfold holdsClock at holds
  simp only [idle, Bool.false_or, Bool.and_eq_true, beq_iff_eq, Option.isSome_iff_ne_none] at holds
  rw [holds.1]
  exact loading holds.1 holds.2

theorem owed_of (stands : match member.pace with
      | .loading => game.sealedThrough = 0
      | .following p => p ≤ game.sealedThrough ∧ game.sealedThrough ≤ p + game.pacer.window .maximum
      | .catchingUp _ => True) : Owed game member := fun _ => stands

section
variable (owed : Owed game member)
include owed

theorem Owed.clock (sealed : game'.sealedThrough = game.sealedThrough)
    (window : game'.pacer.window .maximum = game.pacer.window .maximum) : Owed game' member := by
  unfold Owed
  rw [sealed, window]
  exact owed

theorem Owed.progressed {step : Nat} {advanced : Instant} (linked : member.link ≠ none)
    (within : step ≤ game.sealedThrough) (speed : game.speed.percent ≤ Speed.maximum.percent) :
    Owed game { member with
      pace := member.pace.next step (game.pacer.window game.speed) game.sealedThrough, advanced } := by
  have wide := game.pacer.window_mono speed
  cases pace : member.pace with
  | loading =>
    have still := owed.loading pace linked
    intro _
    show step ≤ game.sealedThrough ∧ game.sealedThrough ≤ step + game.pacer.window .maximum
    omega
  | following p =>
    intro holds
    have streaming : member.streaming = true := by simpa [holdsClock, Pace.next, pace] using holds
    obtain ⟨low, high⟩ := owed.following pace streaming
    show max p step ≤ game.sealedThrough ∧ game.sealedThrough ≤ max p step + game.pacer.window .maximum
    omega
  | catchingUp at_ =>
    unfold Pace.next
    dsimp only
    split
    · next caught =>
      have reaches : satAdd step (game.pacer.window game.speed) ≤ step + game.pacer.window game.speed :=
        Nat.min_le_left _ _
      intro _
      show step ≤ game.sealedThrough ∧ game.sealedThrough ≤ step + game.pacer.window .maximum
      omega
    · exact owed_catching rfl

theorem Owed.demoted (timeouts : Timeouts) (now : Instant) :
    Owed game (Room.demote game timeouts now member) := by
  unfold Room.demote
  split
  · exact owed
  split
  · exact owed
  split
  · split
    · exact owed_catching rfl
    · exact owed
  · split
    · exact owed_catching rfl
    · exact owed
  · exact owed

theorem Owed.advanced {elapsed : Duration} {frontier : Nat} {pacer : Pacer}
    (seated : member ∈ members) (speed : game.speed.percent ≤ Speed.maximum.percent)
    (advanced : game.pacer.advance elapsed game.speed (slowestPacer members) game.sealedThrough = (frontier, pacer))
    (sealed : game'.sealedThrough = frontier) (paced : game'.pacer = pacer) : Owed game' member := by
  have forward := game.pacer.advance_forward elapsed game.speed (slowestPacer members) game.sealedThrough
  have window := game.pacer.advance_window elapsed game.speed .maximum (slowestPacer members) game.sealedThrough
  have wide := game.pacer.window_mono speed
  rw [advanced] at forward window
  rw [← paced] at window
  cases found : slowestPacer members with
  | none =>
    rw [found] at advanced
    cases advanced
    exact owed.clock sealed window
  | some slowest =>
    have within := game.pacer.advance_within elapsed game.speed slowest game.sealedThrough
    rw [← found, advanced] at within
    intro holds
    obtain ⟨ready, least⟩ := slowestPacer_some found seated holds
    have stands := owed holds
    cases pace : member.pace with
    | loading => exact absurd pace ready
    | following p =>
      rw [pace] at stands
      have slower := least p pace
      show p ≤ game'.sealedThrough ∧ game'.sealedThrough ≤ p + game'.pacer.window .maximum
      rw [sealed, window]
      omega
    | catchingUp at_ => trivial

end

end Owed

namespace Room
variable {σ : Type} {r r' : Room σ} {o : Oracle} {mode : Mode}

structure Paced (r : Room σ) : Prop where
  lobby : r.phase = .lobby → ∀ member ∈ r.members, member.streaming = false
  speed : ∀ game, r.phase = .running game → game.speed.percent ≤ Speed.maximum.percent
  owed : ∀ game, r.phase = .running game → ∀ member ∈ r.members, Owed game member

namespace Paced

theorem seat {index : Nat} {member member' : Member} (paced : r.Paced) (seat : r.members[index]? = some member)
    (members : r'.members = r.members.set index member') (phase : r'.phase = r.phase)
    (idle : r.phase = .lobby → member.streaming = false → member'.streaming = false)
    (owed : ∀ game, r.phase = .running game → Owed game member → Owed game member') : r'.Paced := by
  have present := mem_of_getElem? seat
  refine ⟨fun lobby other seated => ?_, fun game running => ?_, fun game running other seated => ?_⟩
  · rw [phase] at lobby
    rw [members] at seated
    rcases mem_or_eq_of_mem_set seated with old | rfl
    · exact paced.lobby lobby other old
    · exact idle lobby (paced.lobby lobby member present)
  · exact paced.speed game (phase ▸ running)
  · rw [phase] at running
    rw [members] at seated
    rcases mem_or_eq_of_mem_set seated with old | rfl
    · exact paced.owed game running other old
    · exact owed game running (paced.owed game running member present)

theorem played {game game' : Game} (paced : r.Paced) (running : r.phase = .running game)
    (speed : game'.speed.percent ≤ Speed.maximum.percent) (sealed : game'.sealedThrough = game.sealedThrough)
    (window : game'.pacer.window .maximum = game.pacer.window .maximum) : (r.withGame game').Paced := by
  refine ⟨(fun lobby => nomatch lobby), ?_, ?_⟩
  · rintro _ ⟨⟩
    exact speed
  · rintro _ ⟨⟩ member seated
    exact (paced.owed game running member seated).clock sealed window

theorem act (paced : r.Paced) (act : Act mode r r') : r'.Paced := by
  cases act with
  | noted | told | hungUp => exact ⟨paced.lobby, paced.speed, paced.owed⟩
  | adjusted seat declared => exact paced.seat seat rfl rfl (fun _ idle => idle) fun _ _ owed => owed
  | unlinked seat => exact paced.seat seat rfl rfl (fun _ _ => rfl) fun _ _ _ => owed_catching rfl
  | progressed running seat linked within =>
    refine paced.seat seat rfl rfl (fun _ idle => idle) fun game running' owed => ?_
    cases running.symm.trans running'
    exact owed.progressed (by rw [linked]; simp) within (paced.speed _ running)
  | @demoted game now running =>
    refine ⟨fun lobby => ?_, paced.speed, fun game' running' member seated => ?_⟩
    · cases running.symm.trans lobby
    cases running.symm.trans running'
    obtain ⟨old, present, rfl⟩ := mem_map.mp seated
    exact (paced.owed game running old present).demoted _ _
  | diverged step seat settled => exact paced.seat seat rfl rfl (fun _ idle => idle) fun _ _ owed => owed
  | @served game index member link agreed start backlog streamFrom now running current fed seat linked =>
    refine paced.seat seat rfl rfl (fun lobby => ?_) fun game' running' owed => ?_
    · cases running.symm.trans lobby
    apply owed_of
    unfold givenWorld
    by_cases loading : member.pace = .loading
    · rw [if_pos loading]
      exact owed.loading loading (by rw [linked]; simp)
    · rw [if_neg loading]
      trivial
  | unserved seat linked =>
    refine paced.seat seat rfl rfl (fun _ _ => rfl) fun _ _ owed => owed_idle rfl ?_
    exact fun loading linked => owed.loading loading linked
  | returned new lobby seat =>
    refine paced.seat seat rfl rfl (fun _ _ => rfl) fun game running => ?_
    cases lobby.symm.trans running
  | awaiting new running seat => exact paced.seat seat rfl rfl (fun _ _ => rfl) fun _ _ _ => owed_catching rfl
  | resumed running granted seat same =>
    refine paced.seat seat rfl rfl (fun lobby => ?_) fun _ _ _ => owed_catching rfl
    cases running.symm.trans lobby
  | unresumed new streamFrom running seat =>
    exact paced.seat seat rfl rfl (fun _ _ => rfl) fun _ _ _ => owed_catching rfl
  | begun running unsealed covers worldless empty seat linked =>
    refine paced.seat seat rfl rfl (fun lobby => ?_) fun game running' _ => owed_of ?_
    · cases running.symm.trans lobby
    · cases running.symm.trans running'
      exact unsealed
  | unbegun needs running unsealed seat =>
    refine paced.seat seat rfl rfl (fun _ _ => rfl) fun game running' _ => owed_idle rfl fun _ _ => ?_
    cases running.symm.trans running'
    exact unsealed
  | timed running within => exact paced.played running within rfl rfl
  | @judged game _ _ running => exact paced.played running (paced.speed game running) rfl rfl
  | @kept game _ running => exact paced.played running (paced.speed game running) rfl rfl
  | @ticked game _ running => exact paced.played running (paced.speed game running) rfl (Pacer.advance_window ..)

theorem of_running {game : Game} (running : r.phase = .running game)
    (speed : game.speed.percent ≤ Speed.maximum.percent)
    (owed : ∀ member ∈ r.members, Owed game member) : r.Paced := by
  refine ⟨fun lobby => ?_, fun game' running' => ?_, fun game' running' => ?_⟩
  · cases running.symm.trans lobby
  · cases running.symm.trans running'
    exact speed
  · cases running.symm.trans running'
    exact owed

theorem of_lobby (lobby : r.phase = .lobby) (idle : ∀ member ∈ r.members, member.streaming = false) : r.Paced := by
  refine ⟨fun _ => idle, fun game running => ?_, fun game running => ?_⟩
  · cases lobby.symm.trans running
  · cases lobby.symm.trans running

theorem publish {frames : List Bytes} (paced : r.Paced) : (r.publish o frames).Paced := by
  obtain ⟨members, out, calls, disk, log, compaction, compactAt, same, cuts⟩ := r.publish_eq frames
  rw [same]
  have cut (member' : Member) (seated : member' ∈ members) : ∃ member ∈ r.members, Cut member member' := by
    obtain ⟨index, there⟩ := mem_iff_getElem?.mp seated
    obtain ⟨inside, rfl⟩ := List.getElem?_eq_some_iff.mp there
    have inside' : index < r.members.length := cuts.length_eq ▸ inside
    exact ⟨r.members[index], getElem_mem _, Forall₂.get cuts inside' inside⟩
  refine ⟨fun lobby member' seated => ?_, paced.speed, fun game running member' seated => ?_⟩
  · obtain ⟨member, present, rfl | rfl⟩ := cut member' seated
    · exact paced.lobby lobby member' present
    · rfl
  · obtain ⟨member, present, rfl | rfl⟩ := cut member' seated
    · exact paced.owed game running member' present
    · exact owed_catching rfl

theorem closeAll {game : Game} {code : CloseCode} {reason : String} (running : r.phase = .running game)
    (speed : game.speed.percent ≤ Speed.maximum.percent) : (r.closeAll code reason).Paced := by
  obtain ⟨members, out, same, _, silent⟩ := r.closeAll_silent code reason
  rw [same]
  refine of_running running speed fun member seated => owed_idle (silent member seated).2 fun _ linked => ?_
  exact absurd (silent member seated).1 linked

theorem deed (paced : r.Paced) (deed : Deed mode o r r') : r'.Paced := by
  cases deed with
  | act _ act => exact paced.act act
  | @ordered game _ _ _ _ running _ =>
    exact of_running rfl (paced.speed game running) fun member seated =>
      (paced.owed game running member seated).clock rfl rfl
  | sat new now _ lobby fresh space =>
    refine of_lobby lobby fun member seated => ?_
    rcases mem_append.mp seated with old | new
    · exact paced.lobby lobby member old
    · rw [mem_singleton.mp new]
      rfl
  | @entered game new now _ running fresh space =>
    refine of_running rfl (paced.speed game running) fun member seated => ?_
    rcases mem_append.mp seated with old | new
    · exact (paced.owed game running member old).clock rfl rfl
    · rw [mem_singleton.mp new]
      exact owed_catching rfl
  | @departed index member kicked calls out _ seat farewell =>
    obtain ⟨table, phase⟩ := handOn_table (r := r.depart index member.player kicked) member.player
    cases before : r.phase with
    | lobby =>
      rw [depart_lobby _ _ _ before] at table phase ⊢
      refine of_lobby (phase.trans before) fun other seated => ?_
      exact paced.lobby before other (mem_of_mem_eraseIdx (table ▸ seated))
    | running game =>
      rw [depart_running _ _ _ before] at table phase ⊢
      refine of_running phase (paced.speed game before) fun other seated => ?_
      exact (paced.owed game before other (mem_of_mem_eraseIdx (table ▸ seated))).clock rfl rfl
  | expired => exact ⟨paced.lobby, paced.speed, paced.owed⟩
  | @started history now calls content _ lobby seated same =>
    obtain ⟨nextEvent, seats, pending, began, _⟩ := r.seatMembers_game (.new r.settings history now)
    refine of_running rfl ?_ fun member seated => owed_idle (paced.lobby lobby member seated) fun _ _ => ?_
    · rw [began]
      show Speed.normal.percent ≤ Speed.maximum.percent
      decide
    · rw [began]
      rfl
  | @logOpened game _ running =>
    obtain ⟨disk, calls, log, same⟩ := r.openLog_eq game.history
    rw [same]
    exact ⟨paced.lobby, paced.speed, paced.owed⟩
  | @saved game game' state point frames now _ _ running free save =>
    obtain ⟨_, sealed, _⟩ := Game.save_eq save
    obtain ⟨_, _, _, _, _, _, rfl⟩ := Game.sealPending_eq sealed
    refine publish (of_running rfl (paced.speed game running) fun member seated => ?_)
    exact (paced.owed game running member seated).clock rfl rfl
  | @unsaved game game' state error code reason _ running save =>
    obtain ⟨_, sealed, _⟩ := Game.save_eq save
    obtain ⟨_, _, _, _, _, _, rfl⟩ := Game.sealPending_eq sealed
    exact closeAll rfl (paced.speed game running)
  | @sealed game game' frontier pacer frames now _ running advanced sealed =>
    obtain ⟨_, _, _, _, _, _, rfl⟩ := Game.sealPending_eq sealed
    refine publish (of_running rfl (paced.speed game running) fun member seated => ?_)
    exact (paced.owed game running member seated).advanced seated (paced.speed game running) advanced rfl rfl
  | @unsealed game game' frontier pacer error code reason now _ running sealed =>
    obtain ⟨_, _, _, _, _, _, rfl⟩ := Game.sealPending_eq sealed
    exact closeAll rfl (paced.speed game running)

theorem runs (paced : r.Paced) (runs : Runs r r') : r'.Paced := by
  induction runs with
  | refl => exact paced
  | tail _ step ih => exact step.preserves ih (fun paced deed => paced.deed deed) fun paced =>
    ⟨paced.lobby, paced.speed, paced.owed⟩

end Paced

theorem Deed.forward {game : Game} (deed : Deed mode o r r') (running : r.phase = .running game) :
    ∃ game', r'.phase = .running game' ∧ game.sealedThrough ≤ game'.sealedThrough := by
  cases deed with
  | act _ act =>
    obtain ⟨game', running', _, _, _, _, _, _, rfl⟩ := Acts.running (.single act) running
    exact ⟨_, running', le_rfl⟩
  | ordered _ here | entered _ _ _ here =>
    cases running.symm.trans here
    exact ⟨_, rfl, le_rfl⟩
  | sat _ _ _ lobby | started _ lobby =>
    cases running.symm.trans lobby
  | @departed index member kicked calls out _ seat farewell =>
    have phase := (handOn_table (r := r.depart index member.player kicked) member.player).2
    rw [depart_running _ _ _ running] at phase ⊢
    exact ⟨_, phase, le_rfl⟩
  | expired => exact ⟨game, running, le_rfl⟩
  | @logOpened other _ here =>
    obtain ⟨disk, calls, log, same⟩ := r.openLog_eq other.history
    rw [same]
    exact ⟨game, running, le_rfl⟩
  | @saved _ _ _ point frames now _ _ here free save =>
    cases running.symm.trans here
    obtain ⟨_, sealed, _⟩ := Game.save_eq save
    obtain ⟨_, _, _, _, _, _, rfl⟩ := Game.sealPending_eq sealed
    obtain ⟨_, _, _, _, _, _, _, same, _⟩ := publish_eq frames
    rw [same]
    exact ⟨_, rfl, le_rfl⟩
  | @unsaved _ _ _ error code reason _ here save =>
    cases running.symm.trans here
    obtain ⟨_, sealed, _⟩ := Game.save_eq save
    obtain ⟨_, _, _, _, _, _, rfl⟩ := Game.sealPending_eq sealed
    obtain ⟨_, _, same, _⟩ := closeAll_silent code reason
    rw [same]
    exact ⟨_, rfl, le_rfl⟩
  | @sealed _ _ frontier pacer frames now _ here advanced sealed =>
    cases running.symm.trans here
    have forward := game.pacer.advance_forward (now - game.lastTick) game.speed
      (slowestPacer r.members) game.sealedThrough
    rw [advanced] at forward
    obtain ⟨_, _, _, _, _, _, rfl⟩ := Game.sealPending_eq sealed
    obtain ⟨_, _, _, _, _, _, _, same, _⟩ := publish_eq frames
    rw [same]
    exact ⟨_, rfl, forward⟩
  | @unsealed _ _ frontier pacer error code reason now _ here sealed =>
    cases running.symm.trans here
    obtain ⟨_, _, _, _, _, _, rfl⟩ := Game.sealPending_eq sealed
    obtain ⟨_, _, same, _⟩ := closeAll_silent code reason
    rw [same]
    exact ⟨_, rfl, le_rfl⟩

theorem Runs.forward {game : Game} (runs : Runs r r') (running : r.phase = .running game) :
    ∃ game', r'.phase = .running game' ∧ game.sealedThrough ≤ game'.sealedThrough := by
  induction runs with
  | refl => exact ⟨game, running, le_rfl⟩
  | tail _ step ih =>
    refine step.preserves
      (P := fun r => ∃ game', r.phase = .running game' ∧ game.sealedThrough ≤ game'.sealedThrough) ih
      ?_ ?_
    · rintro o r r' ⟨middle, here, before⟩ deed
      obtain ⟨game', there, after⟩ := deed.forward here
      exact ⟨game', there, le_trans before after⟩
    · exact fun here => here

theorem Begins.paced {first : Nat} {before : List Bytes} (begins : Begins r first before)
    (speed : ∀ game, r.phase = .running game → game.speed.percent ≤ Speed.maximum.percent) : r.Paced := by
  cases begins with
  | new spec owner now disk => exact .of_lobby rfl (by simp [Room.new, Member.new])
  | recovered recovered =>
    obtain ⟨start, choice, replay, reader, cut, log, frame, log', _, _, _, _, _, rfl⟩ := recover_ok recovered
    refine .of_running rfl (speed _ rfl) fun member seated => ?_
    obtain ⟨seat, _, rfl⟩ := mem_map.mp seated
    exact owed_catching rfl

/-- Once a game runs its frontier never goes back; it stays within the widest window of every member
who paces the room, and at zero while one of them is loading. The speed of a room that begins from
its log is the log's, and no room ever sets one above the maximum. -/
theorem clock_keeps_pace {r₀ : Room σ} {game : Game} {first : Nat} {before : List Bytes}
    (begins : Begins r₀ first before)
    (speed : ∀ game, r₀.phase = .running game → game.speed.percent ≤ Speed.maximum.percent) (runs : Runs r₀ r)
    (running : r.phase = .running game) :
    (∀ r', Runs r r' → ∃ game', r'.phase = .running game' ∧ game.sealedThrough ≤ game'.sealedThrough) ∧
    (∀ member ∈ r.members, holdsClock member = true → ∀ p, member.pace = .following p →
      p ≤ game.sealedThrough ∧ game.sealedThrough ≤ p + game.pacer.window .maximum) ∧
    ((∃ member ∈ r.members, holdsClock member = true ∧ member.pace = .loading) → game.sealedThrough = 0) ∧
    game.speed.percent ≤ Speed.maximum.percent := by
  have paced := (begins.paced speed).runs runs
  refine ⟨fun r' later => later.forward running, ?_, ?_, paced.speed game running⟩
  · intro member seated holds p following
    have stands := paced.owed game running member seated holds
    rw [following] at stands
    exact stands
  · rintro ⟨member, seated, holds, loading⟩
    have stands := paced.owed game running member seated holds
    rw [loading] at stands
    exact stands

theorem clock_keeps_pace_alone : ∃ (r : Room Unit) (game : Game), Runs plainRoom r ∧ r.phase = .running game ∧
    (∃ member ∈ r.members, holdsClock member = true ∧ member.pace = .following 0) ∧
    0 < game.sealedThrough ∧ game.sealedThrough ≤ game.pacer.window .maximum := by
  let commands := startAlone ++ [.progress (plainPlayer 1).player 1 0]
  let r := (plainRoom.after 0 commands).tickSeal steady (Duration.ofSecs 1)
  have started : Runs plainRoom (plainRoom.after 0 commands) := after_runs (by decide +kernel)
  have runs : Runs plainRoom r := started.tail (.sealed steady _ (by decide +kernel))
  have sealed : r.phase.casesOn false (fun game => decide (0 < game.sealedThrough)) = true := by decide +kernel
  obtain ⟨member, seated, holds, following⟩ : ∃ member ∈ r.members, holdsClock member = true ∧
      member.pace = .following 0 := by decide +kernel
  clear_value r
  cases running : r.phase with
  | lobby =>
    rw [running] at sealed
    cases sealed
  | running game =>
    rw [running] at sealed
    obtain ⟨_, within, _, _⟩ :=
      clock_keeps_pace (.new plainSpec (plainPlayer 1) 0 _) (by rintro _ ⟨⟩) runs running
    have bound := (within member seated holds 0 following).2
    exact ⟨r, game, runs, running, ⟨member, seated, holds, following⟩, of_decide_eq_true sealed, by omega⟩

end Room

end Tpf3Mp.Server
