import Tpf3Mp.Run.Basic
import Mathlib.Data.List.Count
import Mathlib.Logic.Function.Basic

/-!
What one address, and everyone together, may hold (`tpf3mp-server`, `admission.rs`): handshakes in
progress, sessions, rooms and tunnels. Every section under the lock, and every use of the semaphore, is a
step of its own.
-/

namespace Tpf3Mp.Server.Admission

structure Limits where
  handshakes : Nat
  handshakesPerAddress : Nat
  sessionsPerAddress : Nat
  roomsPerAddress : Nat
  tunnelsPerAddress : Nat

inductive Origin where
  | v4 (address : BitVec 32)
  | v6 (network : UInt64)
  deriving DecidableEq

inductive Kind where
  | handshake
  | session
  | room
  | tunnel
  deriving DecidableEq

def Limits.perAddress (limits : Limits) : Kind → Nat
  | .handshake => limits.handshakesPerAddress
  | .session => limits.sessionsPerAddress
  | .room => limits.roomsPerAddress
  | .tunnel => limits.tunnelsPerAddress

structure Held where
  handshakes : Nat := 0
  sessions : Nat := 0
  rooms : Nat := 0
  tunnels : Nat := 0
  deriving DecidableEq

namespace Held

def isEmpty (h : Held) : Bool := h.handshakes == 0 && h.sessions == 0 && h.rooms == 0 && h.tunnels == 0

def count (h : Held) : Kind → Nat
  | .handshake => h.handshakes
  | .session => h.sessions
  | .room => h.rooms
  | .tunnel => h.tunnels

def update (h : Held) (kind : Kind) (change : Nat → Nat) : Held :=
  match kind with
  | .handshake => { h with handshakes := change h.handshakes }
  | .session => { h with sessions := change h.sessions }
  | .room => { h with rooms := change h.rooms }
  | .tunnel => { h with tunnels := change h.tunnels }

theorem isEmpty_iff {h : Held} : h.isEmpty = true ↔ ∀ kind, h.count kind = 0 := by
  simp only [isEmpty, Bool.and_eq_true, beq_iff_eq]
  constructor
  · rintro ⟨⟨⟨handshakes, sessions⟩, rooms⟩, tunnels⟩ kind
    cases kind <;> assumption
  · intro none
    exact ⟨⟨⟨none .handshake, none .session⟩, none .room⟩, none .tunnel⟩

@[simp]
theorem count_update (h : Held) (kind other : Kind) (change : Nat → Nat) :
    (h.update kind change).count other = if other = kind then change (h.count kind) else h.count other := by
  cases kind <;> cases other <;> rfl

@[simp]
theorem count_default (kind : Kind) : ({} : Held).count kind = 0 := by
  cases kind <;> rfl

end Held

inductive Decision where
  | accept
  | retry
  | refuse
  deriving DecidableEq

end Admission

/-- `permits` are those left in the semaphore. -/
structure Admission where
  limits : Admission.Limits
  permits : Nat
  held : Admission.Origin → Option Admission.Held

namespace Admission
open List

def new (limits : Limits) : Admission := { limits, permits := limits.handshakes, held := fun _ => none }

def entry (a : Admission) (origin : Origin) : Held := (a.held origin).getD {}

def put (a : Admission) (origin : Origin) (entry : Held) : Admission :=
  { a with held := Function.update a.held origin (some entry) }

def remove (a : Admission) (origin : Origin) : Admission :=
  { a with held := Function.update a.held origin none }

/-- The start of `on_attempt`: accepted here are those who hold a permit now. -/
def tryAcquire (a : Admission) (addressValidated mayRetry : Bool) : Decision × Admission :=
  let inProgress := a.limits.handshakes - a.permits
  if !addressValidated && mayRetry && inProgress * 2 ≥ a.limits.handshakes then (.retry, a)
  else if a.permits = 0 then (.refuse, a)
  else (.accept, { a with permits := a.permits - 1 })

def claim (a : Admission) (kind : Kind) (origin : Origin) : Bool × Admission :=
  -- The entry is in the map from here on, also when it was not before.
  let entry := a.entry origin
  if entry.count kind ≥ a.limits.perAddress kind then
    (false, if entry.isEmpty then a.remove origin else a.put origin entry)
  else (true, a.put origin (entry.update kind (· + 1)))

def onAttempt (a : Admission) (origin : Origin) : Bool × Admission := a.claim .handshake origin

def room (a : Admission) (origin : Origin) : Bool × Admission := a.claim .room origin

def tunnel (a : Admission) (origin : Origin) : Bool × Admission := a.claim .tunnel origin

/-- `Handshake::into_session`, up to the drop of the handshake. An entry that holds nothing is not removed. -/
def intoSession (a : Admission) (origin : Origin) : Bool × Admission :=
  let entry := a.entry origin
  if entry.sessions ≥ a.limits.sessionsPerAddress then (false, a.put origin entry)
  else (true, a.put origin (entry.update .session (· + 1)))

def release (a : Admission) (origin : Origin) (kind : Kind) : Admission :=
  match a.held origin with
  | none => a
  | some entry =>
    let entry := entry.update kind (· - 1)
    if entry.isEmpty then a.remove origin else a.put origin entry

section Sections
variable {a : Admission} {origin : Origin} {kind : Kind}

theorem held_put (a : Admission) (origin other : Origin) (entry : Held) :
    (a.put origin entry).held other = if other = origin then some entry else a.held other :=
  Function.update_apply ..

theorem held_remove (a : Admission) (origin other : Origin) :
    (a.remove origin).held other = if other = origin then none else a.held other :=
  Function.update_apply ..

@[simp]
theorem entry_put (a : Admission) (origin other : Origin) (entry : Held) :
    (a.put origin entry).entry other = if other = origin then entry else a.entry other := by
  unfold Admission.entry
  rw [held_put]
  split <;> rfl

@[simp]
theorem entry_remove (a : Admission) (origin other : Origin) :
    (a.remove origin).entry other = if other = origin then {} else a.entry other := by
  unfold entry
  rw [held_remove]
  split <;> rfl

def Tidy (a : Admission) : Prop := ∀ origin entry, a.held origin = some entry → entry.isEmpty = false

variable {entry : Held}

theorem Tidy.put (tidy : a.Tidy) (holds : entry.isEmpty = false) : (a.put origin entry).Tidy := by
  intro other found there
  rw [held_put] at there
  split at there
  · cases there
    exact holds
  · exact tidy other found there

theorem Tidy.remove (tidy : a.Tidy) : (a.remove origin).Tidy := by
  intro other found there
  rw [held_remove] at there
  split at there
  · cases there
  · exact tidy other found there

theorem Tidy.present_iff (tidy : a.Tidy) (origin : Origin) :
    (a.held origin).isSome = true ↔ ∃ kind, (a.entry origin).count kind ≠ 0 := by
  unfold entry
  cases found : a.held origin with
  | none => simp
  | some entry =>
    have holds := tidy origin entry found
    rw [← Bool.not_eq_true, Held.isEmpty_iff] at holds
    simpa using holds

theorem Held.isEmpty_of_count (kind : Kind) (counted : entry.count kind ≠ 0) : entry.isEmpty = false := by
  rw [← Bool.not_eq_true, Held.isEmpty_iff]
  intro none
  exact counted (none kind)

theorem Held.eq_default (empty : entry.isEmpty = true) : entry = {} := by
  rw [Held.isEmpty_iff] at empty
  obtain ⟨handshakes, sessions, rooms, tunnels⟩ := entry
  have handshakes : handshakes = 0 := empty .handshake
  have sessions : sessions = 0 := empty .session
  have rooms : rooms = 0 := empty .room
  have tunnels : tunnels = 0 := empty .tunnel
  subst handshakes sessions rooms tunnels
  rfl

theorem entry_settled (a : Admission) (origin other : Origin) (entry : Held) :
    (if entry.isEmpty then a.remove origin else a.put origin entry).entry other =
      if other = origin then entry else a.entry other := by
  split
  · next empty => rw [entry_remove, Held.eq_default empty]
  · rw [entry_put]

theorem Tidy.settled (tidy : a.Tidy) (entry : Held) :
    (if entry.isEmpty then a.remove origin else a.put origin entry).Tidy := by
  split
  · exact tidy.remove
  · next holds =>
    rw [Bool.not_eq_true] at holds
    exact tidy.put holds

theorem claim_refused (refused : (a.claim kind origin).1 = false) (tidy : a.Tidy) :
    (∀ other, (a.claim kind origin).2.entry other = a.entry other) ∧ (a.claim kind origin).2.Tidy := by
  unfold claim at refused ⊢
  dsimp only at refused ⊢
  split at refused
  · next full =>
    rw [if_pos full]
    refine ⟨fun other => ?_, tidy.settled _⟩
    rw [entry_settled]
    split
    · next same => rw [same]
    · rfl
  · cases refused

theorem claim_granted (granted : (a.claim kind origin).1 = true) (tidy : a.Tidy) :
    (∀ other k, ((a.claim kind origin).2.entry other).count k =
      (a.entry other).count k + if other = origin ∧ k = kind then 1 else 0) ∧
    (a.entry origin).count kind < a.limits.perAddress kind ∧ (a.claim kind origin).2.Tidy := by
  unfold claim at granted ⊢
  dsimp only at granted ⊢
  split at granted
  · cases granted
  rename_i free
  rw [if_neg free]
  refine ⟨fun other k => ?_, Nat.lt_of_not_le free, tidy.put (Held.isEmpty_of_count kind ?_)⟩
  · simp only [entry_put]
    by_cases same : other = origin
    · by_cases like : k = kind
      · simp [same, like]
      · simp [same, like]
    · simp [same]
  · simp

theorem tryAcquire_cases (a : Admission) (validated mayRetry : Bool) :
    (0 < a.permits ∧ a.tryAcquire validated mayRetry = (.accept, { a with permits := a.permits - 1 })) ∨
    ∃ decision, decision ≠ .accept ∧ a.tryAcquire validated mayRetry = (decision, a) := by
  unfold tryAcquire
  dsimp only
  split
  · exact .inr ⟨.retry, by decide, rfl⟩
  · split
    · exact .inr ⟨.refuse, by decide, rfl⟩
    · next some_ => exact .inl ⟨Nat.pos_of_ne_zero some_, rfl⟩

theorem intoSession_eq (there : (a.entry origin).isEmpty = false) : a.intoSession origin = a.claim .session origin := by
  unfold intoSession claim
  simp only [there, Bool.false_eq_true, ↓reduceIte]
  rfl

theorem release_spec (tidy : a.Tidy) (origin : Origin) (kind : Kind) :
    (∀ other k, ((a.release origin kind).entry other).count k =
      (a.entry other).count k - if other = origin ∧ k = kind then 1 else 0) ∧ (a.release origin kind).Tidy := by
  unfold release
  cases found : a.held origin with
  | none =>
    refine ⟨fun other k => ?_, tidy⟩
    by_cases same : other = origin ∧ k = kind
    · have nothing : a.entry other = {} := by rw [same.1, entry, found, Option.getD_none]
      rw [nothing, Held.count_default, Nat.zero_sub]
    · rw [if_neg same, Nat.sub_zero]
  | some held =>
    have here : a.entry origin = held := by rw [entry, found, Option.getD_some]
    refine ⟨fun other k => ?_, tidy.settled _⟩
    rw [entry_settled]
    by_cases same : other = origin
    · by_cases like : k = kind
      · simp [same, like, here]
      · simp [same, like, here]
    · simp [same]

theorem claim_frame (a : Admission) (kind : Kind) (origin : Origin) :
    (a.claim kind origin).2.limits = a.limits ∧ (a.claim kind origin).2.permits = a.permits := by
  unfold claim
  dsimp only
  split
  · split <;> exact ⟨rfl, rfl⟩
  · exact ⟨rfl, rfl⟩

theorem release_frame (a : Admission) (origin : Origin) (kind : Kind) :
    (a.release origin kind).limits = a.limits ∧ (a.release origin kind).permits = a.permits := by
  unfold release
  split
  · exact ⟨rfl, rfl⟩
  · dsimp only
    split <;> exact ⟨rfl, rfl⟩

end Sections

/-- What the tasks of the server hold. An attempt has a permit and has not entered the map yet; a handshake that
`into_session` took is `turned` until it is dropped; a permit alone is about to go back to the semaphore. -/
inductive Token where
  | attempt (origin : Origin)
  | handshake (origin : Origin)
  | turned (origin : Origin)
  | session (origin : Origin)
  | room (origin : Origin)
  | tunnel (origin : Origin)
  | permit
  deriving DecidableEq

namespace Token

def share : Token → Option (Kind × Origin)
  | .handshake origin | .turned origin => some (.handshake, origin)
  | .session origin => some (.session, origin)
  | .room origin => some (.room, origin)
  | .tunnel origin => some (.tunnel, origin)
  | .attempt _ | .permit => none

def isHandshake : Token → Bool
  | .handshake _ | .turned _ => true
  | _ => false

def hasPermit : Token → Bool
  | .attempt _ | .handshake _ | .turned _ | .permit => true
  | _ => false

end Token

structure System where
  admission : Admission
  live : List Token

inductive Event where
  | attempt (origin : Origin) (addressValidated mayRetry : Bool)
  | enter (origin : Origin)
  | room (origin : Origin)
  | tunnel (origin : Origin)
  | intoSession (origin : Origin)
  | drop (token : Token)

namespace System

def new (limits : Limits) : System := { admission := .new limits, live := [] }

def shares (live : List Token) (kind : Kind) (origin : Origin) : Nat :=
  live.countP fun token => token.share = some (kind, origin)

/-- Takes what was decided: the new token if there is one, and `left` otherwise. -/
def grant (s : System) (answer : Bool × Admission) (token : Token) (left : List Token) : System :=
  { admission := answer.2, live := if answer.1 then token :: s.live else left ++ s.live }

def spend (s : System) (token : Token) : System := { s with live := s.live.erase token }

/-- Dropping a handshake releases it first and returns its permit after. -/
def drop (s : System) (token : Token) : System :=
  match token with
  | .handshake origin | .turned origin =>
    { admission := s.admission.release origin .handshake, live := .permit :: s.live.erase token }
  | .session origin => { admission := s.admission.release origin .session, live := s.live.erase token }
  | .room origin => { admission := s.admission.release origin .room, live := s.live.erase token }
  | .tunnel origin => { admission := s.admission.release origin .tunnel, live := s.live.erase token }
  | .permit =>
    { admission := { s.admission with permits := s.admission.permits + 1 }, live := s.live.erase token }
  -- An attempt is not a value anyone could drop: it goes on to the map.
  | .attempt _ => s

/-- An event about a token that is not held does nothing. -/
def step (s : System) : Event → System
  | .attempt origin validated mayRetry =>
    match s.admission.tryAcquire validated mayRetry with
    | (.accept, admission) => { admission, live := .attempt origin :: s.live }
    | (_, admission) => { s with admission }
  | .enter origin =>
    if .attempt origin ∈ s.live then
      (s.spend (.attempt origin)).grant (s.admission.onAttempt origin) (.handshake origin) [.permit]
    else s
  | .room origin => s.grant (s.admission.room origin) (.room origin) []
  | .tunnel origin => s.grant (s.admission.tunnel origin) (.tunnel origin) []
  | .intoSession origin =>
    if .handshake origin ∈ s.live then
      let turned := { s with live := .turned origin :: s.live.erase (.handshake origin) }
      turned.grant (s.admission.intoSession origin) (.session origin) []
    else s
  | .drop token => if token ∈ s.live then s.drop token else s

def run (s : System) (events : List Event) : System := events.foldl step s

/-- The map counts exactly the tokens, within the limits. -/
structure Counted (limits : Limits) (a : Admission) (live : List Token) : Prop where
  bounds : a.limits = limits
  counted : ∀ kind origin, (a.entry origin).count kind = shares live kind origin
  limited : ∀ kind origin, shares live kind origin ≤ limits.perAddress kind
  tidy : a.Tidy

def permitsOut (live : List Token) : Nat := live.countP Token.hasPermit

structure Sound (limits : Limits) (s : System) : Prop where
  counted : Counted limits s.admission s.live
  balance : s.admission.permits + permitsOut s.live = limits.handshakes

section Steps
variable {limits : Limits} {a : Admission} {live : List Token} {token : Token} {kind : Kind} {origin : Origin}

@[simp]
theorem shares_cons (token : Token) (live : List Token) (kind : Kind) (origin : Origin) :
    shares (token :: live) kind origin = shares live kind origin + if token.share =
      some (kind, origin) then 1 else 0 := by
  simp [shares, countP_cons]

@[simp]
theorem permitsOut_cons (token : Token) (live : List Token) :
    permitsOut (token :: live) = permitsOut live + if token.hasPermit then 1 else 0 := countP_cons

theorem shares_erase (held : token ∈ live) (kind : Kind) (origin : Origin) :
    shares (live.erase token) kind origin + (if token.share = some (kind, origin) then 1 else 0) =
      shares live kind origin := by
  rw [← shares_cons]
  exact ((perm_cons_erase held).countP_eq _).symm

theorem permitsOut_erase (held : token ∈ live) :
    permitsOut (live.erase token) + (if token.hasPermit then 1 else 0) = permitsOut live := by
  rw [← permitsOut_cons]
  exact ((perm_cons_erase held).countP_eq _).symm

theorem Token.share_iff {other : Origin} {k : Kind} (share : token.share = some (kind, origin)) :
    token.share = some (k, other) ↔ other = origin ∧ k = kind := by
  rw [share, Option.some.injEq, Prod.mk.injEq, eq_comm, eq_comm (b := other), and_comm]

theorem shares_idle {left : List Token} (idle : ∀ token ∈ left, token.share = none) (kind : Kind) (origin : Origin) :
    shares (left ++ live) kind origin = shares live kind origin := by
  have nothing : shares left kind origin = 0 := by
    refine countP_eq_zero.mpr fun token among => ?_
    simp [idle token among]
  have split : shares (left ++ live) kind origin = shares left kind origin + shares live kind origin := countP_append
  rw [split, nothing, Nat.zero_add]

section
variable (counted : Counted limits a live)
include counted

theorem Counted.alike {other : List Token}
    (same : ∀ kind origin, shares other kind origin = shares live kind origin) : Counted limits a other where
  bounds := counted.bounds
  counted kind origin := by rw [same]; exact counted.counted kind origin
  limited kind origin := by rw [same]; exact counted.limited kind origin
  tidy := counted.tidy

theorem Counted.refused (no : (a.claim kind origin).1 = false) :
    Counted limits (a.claim kind origin).2 live := by
  obtain ⟨same, tidy⟩ := claim_refused no counted.tidy
  refine ⟨(a.claim_frame kind origin).1.trans counted.bounds, fun k other => ?_, counted.limited, tidy⟩
  rw [same]
  exact counted.counted k other

theorem Counted.granted (yes : (a.claim kind origin).1 = true)
    (share : token.share = some (kind, origin)) : Counted limits (a.claim kind origin).2 (token :: live) := by
  obtain ⟨more, free, tidy⟩ := claim_granted yes counted.tidy
  refine ⟨(a.claim_frame kind origin).1.trans counted.bounds, fun k other => ?_, fun k other => ?_, tidy⟩
  · rw [more, counted.counted, shares_cons]
    simp only [Token.share_iff share]
  rw [shares_cons]
  split
  · next here =>
    obtain ⟨rfl, rfl⟩ := (Token.share_iff share).mp here
    rw [counted.counted, counted.bounds] at free
    exact free
  · exact counted.limited k other

theorem Counted.released (held : token ∈ live)
    (share : token.share = some (kind, origin)) : Counted limits (a.release origin kind) (live.erase token) := by
  obtain ⟨less, tidy⟩ := release_spec counted.tidy origin kind
  have gone (k : Kind) (other : Origin) := shares_erase held k other
  refine ⟨(a.release_frame origin kind).1.trans counted.bounds, fun k other => ?_, fun k other => ?_, tidy⟩
  · rw [less, counted.counted, ← gone k other]
    simp only [Token.share_iff share]
    omega
  · have before := counted.limited k other
    have now := gone k other
    omega

end

variable {s : System}

/-- A call that asks for a share keeps the account, whatever the answer: the tokens in hand are the new one or
those left, which count for nothing and hold as many permits. -/
theorem Sound.grant {left : List Token} (counted : Counted limits s.admission s.live)
    (share : token.share = some (kind, origin)) (idle : ∀ token ∈ left, token.share = none)
    (weigh : permitsOut left = if token.hasPermit then 1 else 0)
    (balance : s.admission.permits + (permitsOut s.live + permitsOut left) = limits.handshakes) :
    Sound limits (s.grant (s.admission.claim kind origin) token left) := by
  have frame := (s.admission.claim_frame kind origin).2
  unfold System.grant
  cases answer : (s.admission.claim kind origin).1 with
  | true =>
    refine ⟨counted.granted answer share, ?_⟩
    simp only [↓reduceIte]
    rw [frame, permitsOut_cons, ← weigh]
    exact balance
  | false =>
    refine ⟨(counted.refused answer).alike (shares_idle idle), ?_⟩
    have split : permitsOut (left ++ s.live) = permitsOut left + permitsOut s.live := countP_append
    simp only [Bool.false_eq_true, ↓reduceIte]
    rw [frame, split, Nat.add_comm (permitsOut left)]
    exact balance

theorem Sound.new (limits : Limits) : Sound limits (new limits) where
  counted :=
    { bounds := rfl
      counted := fun kind _ => Held.count_default kind
      limited := fun _ _ => Nat.zero_le _
      tidy := fun _ _ there => by cases there }
  balance := rfl

theorem Sound.attempted (sound : Sound limits s) (origin : Origin) (validated mayRetry : Bool) :
    Sound limits (s.step (.attempt origin validated mayRetry)) := by
  have balance := sound.balance
  unfold step
  dsimp only
  rcases s.admission.tryAcquire_cases validated mayRetry with ⟨some_, acquired⟩ | ⟨decision, other, same⟩
  · rw [acquired]
    have uncounted (k : Kind) (other : Origin) : shares (.attempt origin :: s.live) k other =
      shares s.live k other := by
      simp [Token.share]
    have still : Counted limits { s.admission with permits := s.admission.permits - 1 } s.live :=
      ⟨sound.counted.bounds, sound.counted.counted, sound.counted.limited, sound.counted.tidy⟩
    refine ⟨still.alike uncounted, ?_⟩
    simp only [permitsOut_cons, Token.hasPermit, ↓reduceIte]
    omega
  · rw [same]
    cases decision with
    | accept => exact absurd rfl other
    | retry => exact sound
    | refuse => exact sound

theorem Sound.entered (sound : Sound limits s) (held : .attempt origin ∈ s.live) :
    Sound limits ((s.spend (.attempt origin)).grant (s.admission.onAttempt origin) (.handshake origin) [.permit]) := by
  have less := permitsOut_erase held
  have balance := sound.balance
  have uncounted (k : Kind) (other : Origin) :
      shares (s.live.erase (.attempt origin)) k other = shares s.live k other := by
    have same := shares_erase held k other
    simpa [Token.share] using same
  refine Sound.grant (sound.counted.alike uncounted) rfl ?_ rfl ?_
  · intro token among
    rw [mem_singleton.mp among]
    rfl
  · simp only [Token.hasPermit, ↓reduceIte] at less
    rw [← balance, ← less]
    rfl

theorem Sound.turned (sound : Sound limits s) (held : .handshake origin ∈ s.live) :
    Sound limits (System.grant { s with live := .turned origin :: s.live.erase (.handshake origin) }
      (s.admission.intoSession origin) (.session origin) []) := by
  have less := permitsOut_erase held
  have same := shares_erase held
  have there : (s.admission.entry origin).isEmpty = false := by
    apply Held.isEmpty_of_count .handshake
    have one := same .handshake origin
    simp only [Token.share, ↓reduceIte] at one
    rw [sound.counted.counted, ← one]
    exact Nat.succ_ne_zero _
  rw [intoSession_eq there]
  refine Sound.grant (sound.counted.alike fun k other => ?_) rfl (by simp) rfl ?_
  · rw [shares_cons, ← same k other]
    rfl
  · rw [permitsOut_cons, ← sound.balance, ← less]
    rfl

theorem Sound.dropped (left : List Token) (sound : Sound limits s) (held : token ∈ s.live)
    (share : token.share = some (kind, origin)) (idle : ∀ token ∈ left, token.share = none)
    (weigh : permitsOut left = if token.hasPermit then 1 else 0) :
    Sound limits { admission := s.admission.release origin kind, live := left ++ s.live.erase token } := by
  have less := permitsOut_erase held
  refine ⟨(sound.counted.released held share).alike (shares_idle idle), ?_⟩
  have split : permitsOut (left ++ s.live.erase token) = permitsOut left + permitsOut (s.live.erase token) :=
    countP_append
  rw [split, weigh, (s.admission.release_frame origin kind).2, ← sound.balance, ← less]
  omega

theorem Sound.drop (sound : Sound limits s) (held : token ∈ s.live) : Sound limits (s.drop token) := by
  have returned : ∀ token ∈ [Token.permit], token.share = none := by simp [Token.share]
  cases token with
  | attempt origin => exact sound
  | handshake origin => exact sound.dropped [.permit] held rfl returned rfl
  | turned origin => exact sound.dropped [.permit] held rfl returned rfl
  | session origin => exact sound.dropped [] held rfl (by simp) rfl
  | room origin => exact sound.dropped [] held rfl (by simp) rfl
  | tunnel origin => exact sound.dropped [] held rfl (by simp) rfl
  | permit =>
    have less := permitsOut_erase held
    have balance := sound.balance
    have uncounted (k : Kind) (other : Origin) : shares (s.live.erase .permit) k other = shares s.live k other := by
      have same := shares_erase held k other
      simpa [Token.share] using same
    have still : Counted limits { s.admission with permits := s.admission.permits + 1 } s.live :=
      ⟨sound.counted.bounds, sound.counted.counted, sound.counted.limited, sound.counted.tidy⟩
    refine ⟨still.alike uncounted, ?_⟩
    simp only [Token.hasPermit, ↓reduceIte] at less
    simp only [System.drop]
    omega

theorem Sound.step (sound : Sound limits s) (event : Event) : Sound limits (s.step event) := by
  cases event with
  | attempt origin validated mayRetry => exact sound.attempted origin validated mayRetry
  | enter origin =>
    unfold System.step
    dsimp only
    split
    · next held => exact sound.entered held
    · exact sound
  | room origin => exact Sound.grant sound.counted rfl (by simp) rfl sound.balance
  | tunnel origin => exact Sound.grant sound.counted rfl (by simp) rfl sound.balance
  | intoSession origin =>
    unfold System.step
    dsimp only
    split
    · next held => exact sound.turned held
    · exact sound
  | drop token =>
    unfold System.step
    dsimp only
    split
    · next held => exact sound.drop held
    · exact sound

theorem Sound.run (sound : Sound limits s) (events : List Event) : Sound limits (s.run events) :=
  @Run.foldl_preserves _ _ _ (Sound limits) (fun _ event sound => sound.step event) _ sound events

end Steps

end System

/-- Whatever is asked for and dropped, and in whatever order, each address is counted for what is held against it
and no more, within its limits, the handshakes of all are within theirs, and no entry outlives its counts. -/
theorem counts_live_tokens (limits : Limits) (events : List Event) :
    let s := (System.new limits).run events
    (∀ kind origin, (s.admission.entry origin).count kind = System.shares s.live kind origin ∧
      (s.admission.entry origin).count kind ≤ limits.perAddress kind) ∧
    s.live.countP Token.isHandshake ≤ limits.handshakes ∧
    ∀ origin, (s.admission.held origin).isSome = true ↔ ∃ kind, (s.admission.entry origin).count kind ≠ 0 := by
  intro s
  have sound : System.Sound limits s := (System.Sound.new limits).run events
  refine ⟨fun kind origin => ?_, ?_, sound.counted.tidy.present_iff⟩
  · rw [sound.counted.counted]
    exact ⟨rfl, sound.counted.limited kind origin⟩
  have holds : s.live.countP Token.isHandshake ≤ System.permitsOut s.live := by
    apply countP_mono_left
    intro token _ is
    cases token <;> first | rfl | cases is
  have balance := sound.balance
  omega

end Admission

end Tpf3Mp.Server
