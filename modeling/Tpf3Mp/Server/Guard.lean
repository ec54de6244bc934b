import Tpf3Mp.Server.RoomRun

/-!
Who a room lets in (`tpf3mp-server`, `RoomSecrets::check` and `PasswordGuard`): newcomers may try only so
many passwords in a window of the guard, and past that are all answered alike.
-/

namespace Tpf3Mp.Server
open Codec Proto Data List

theorem byteArray_toList (bytes : ByteArray) : bytes.toList = bytes.data.toList := by
  have loop (left index : Nat) (seen : List UInt8) (size : bytes.size - index = left) :
      ByteArray.toList.loop bytes index seen = seen.reverse ++ bytes.data.toList.drop index := by
    induction left generalizing index seen with
    | zero =>
      unfold ByteArray.toList.loop
      have done : bytes.data.toList.length ≤ index := by
        change bytes.size ≤ index
        omega
      rw [if_neg (by omega), drop_eq_nil_of_le done, append_nil]
    | succ left ih =>
      unfold ByteArray.toList.loop
      have inside : index < bytes.data.toList.length := by
        change index < bytes.size
        omega
      have here : bytes.get! index = bytes.data.toList[index] := by
        change bytes.data[index]! = _
        rw [getElem!_pos bytes.data index inside, Array.getElem_toList]
      rw [if_pos (by omega), ih (index + 1) _ (by omega), drop_eq_getElem_cons inside, here,
        reverse_cons, append_assoc]
      rfl
  exact loop bytes.size 0 [] rfl

namespace RoomSecrets

/-- The secrets were made from an invite token and a password, and a tag verifies exactly what it was
made from. -/
structure Sealed (secrets : RoomSecrets) (room : RoomId) (token : FixedBytes 32) (password : Text 64) : Prop where
  invite : ∀ input, secrets.verify input secrets.inviteTag = true ↔ input = inviteInput room token
  password : ∃ tag, secrets.passwordTag = some tag ∧
    ∀ input, secrets.verify input tag = true ↔ input = passwordInput room password

variable {room : RoomId}

theorem inviteInput_inj {token other : FixedBytes 32} :
    inviteInput room token = inviteInput room other ↔ token = other := by
  unfold inviteInput
  rw [append_cancel_left_eq, Subtype.ext_iff]

theorem passwordInput_inj {password other : Text 64} :
    passwordInput room password = passwordInput room other ↔ password = other := by
  unfold passwordInput
  rw [append_cancel_left_eq, byteArray_toList, byteArray_toList, Subtype.ext_iff]
  constructor
  · intro same
    exact String.toByteArray_inj.mp (ByteArray.ext (Array.toList_inj.mp same))
  · intro same
    rw [same]

theorem Sealed.check_eq {secrets : RoomSecrets} {token : FixedBytes 32} {password : Text 64}
    (sealed : secrets.Sealed room token password) (tried : FixedBytes 32) (guess : Option (Text 64)) :
    secrets.check room tried guess =
      if tried = token then if guess = some password then .admitted else .wrongPassword else .wrongInvite := by
  have invite : secrets.verify (inviteInput room tried) secrets.inviteTag = decide (tried = token) := by
    rw [Bool.eq_iff_iff, sealed.invite, inviteInput_inj, decide_eq_true_eq]
  obtain ⟨tag, tagged, exact⟩ := sealed.password
  unfold check
  rw [invite, tagged]
  by_cases held : tried = token
  · rw [if_pos held, decide_eq_true held]
    cases guess with
    | none => rfl
    | some guess =>
      have right : secrets.verify (passwordInput room guess) tag = decide (guess = password) := by
        rw [Bool.eq_iff_iff, exact, passwordInput_inj, decide_eq_true_eq]
      dsimp only
      rw [right]
      by_cases same : guess = password
      · rw [decide_eq_true same, if_pos (congrArg some same)]
      · rw [decide_eq_false same, if_neg fun equal => same (Option.some.inj equal)]
  · rw [if_neg held, decide_eq_false held]

end RoomSecrets

structure Door where
  id : RoomId
  secrets : RoomSecrets
  banned : List PlayerId
  guard : PasswordGuard

namespace Room
variable {σ : Type} {r r' : Room σ} {o : Oracle}

def door (r : Room σ) : Door := ⟨r.id, r.secrets, r.banned, r.passwordGuard⟩

theorem trySend_door (output : Output) : (r.trySend o output).2.door = r.door := by
  unfold trySend
  dsimp only
  split
  · rfl
  · rfl

theorem serve_door (now : Instant) (offered : Option SnapshotId) (entry : Nat × TurnFeed × Nat) :
    (serve o now offered r entry).door = r.door := by
  unfold serve
  dsimp only
  split
  · rfl
  split
  · rfl
  · split
    · exact trySend_door _
    · exact trySend_door _

theorem offerWorlds_door (now : Instant) : (r.offerWorlds o now).door = r.door := by
  unfold offerWorlds
  split
  · rfl
  rename_i game running
  have kept (r' : Room σ) (entry : Nat × TurnFeed × Nat) (same : r'.door = r.door) :
      (serve o now (game.saves.current.map Agreed.id) r' entry).door = r.door :=
    (serve_door now _ _).trans same
  refine Run.foldl_preserves kept ?_ _
  rfl

theorem takeOver_door (index : Nat) (member : Member) (new : NewMember) (rejoin : Rejoin) :
    (r.takeOver o index member new rejoin).door = r.door := by
  have replaced : (r.replaceLink member new.link).door = r.door := by
    unfold replaceLink
    repeat' split
    all_goals rfl
  cases rejoin with
  | lobby => exact replaced
  | world => exact replaced
  | stream feed => exact (trySend_door _).trans replaced

theorem takeSeat_door (now : Instant) (new : NewMember) (content : Option ContentFingerprint) :
    (r.takeSeat o now new content).1.door = r.door := by
  unfold takeSeat
  dsimp only
  split
  · repeat' split
    · rfl
    · rfl
    · rfl
    · exact offerWorlds_door now
  · split
    · rfl
    · rfl

theorem admit_door (now : Instant) (new : NewMember) (resume : Option Resume) (content : Option ContentFingerprint) :
    (r.admitMember o now new resume content).1.door = r.door := by
  unfold admitMember
  split
  · exact takeSeat_door now new content
  split
  · rfl
  · split
    · rfl
    · exact (offerWorlds_door now).trans (takeOver_door _ _ _ _)

theorem admit_guard (r : Room σ) (now : Instant) (new : NewMember) (resume : Option Resume)
    (content : Option ContentFingerprint) :
    (r.admitMember o now new resume content).1.passwordGuard = r.passwordGuard :=
  congrArg Door.guard (r.admit_door now new resume content)

end Room

structure Attempt where
  now : Instant
  new : NewMember
  token : FixedBytes 32
  password : Option (Text 64)
  resume : Option Resume
  content : Option ContentFingerprint
  deriving DecidableEq

namespace Room
variable {σ : Type} (o : Oracle)

def answer (r : Room σ) (attempt : Attempt) : Room σ × Except RequestError RoomView :=
  r.join o attempt.now attempt.new attempt.token attempt.password attempt.resume attempt.content

def answers (r : Room σ) : List Attempt → List (Except RequestError RoomView)
  | [] => []
  | attempt :: attempts => (r.answer o attempt).2 :: answers (r.answer o attempt).1 attempts

def afterAttempts (r : Room σ) (attempts : List Attempt) : Room σ :=
  attempts.foldl (fun r attempt => (r.answer o attempt).1) r

/-- The guard did not begin a new window on any of the attempts. -/
def SameWindow (r : Room σ) : List Attempt → Prop
  | [] => True
  | attempt :: attempts =>
    (r.answer o attempt).1.passwordGuard.windowStart = r.passwordGuard.windowStart ∧
      SameWindow (r.answer o attempt).1 attempts

instance SameWindow.decide (r : Room σ) : (attempts : List Attempt) → Decidable (r.SameWindow o attempts)
  | [] => .isTrue trivial
  | attempt :: attempts =>
    have := SameWindow.decide (r.answer o attempt).1 attempts
    inferInstanceAs (Decidable (_ ∧ _))

/-- A valid invite with a wrong or missing password, from someone neither seated nor banned. -/
def Counted (token : FixedBytes 32) (password : Text 64) (r : Room σ) (attempt : Attempt) : Prop :=
  attempt.token = token ∧ attempt.password ≠ some password ∧
    r.position attempt.new.player = none ∧ attempt.new.player ∉ r.banned

instance (token : FixedBytes 32) (password : Text 64) (r : Room σ) (attempt : Attempt) :
    Decidable (Counted token password r attempt) :=
  inferInstanceAs (Decidable (_ ∧ _ ∧ _ ∧ _))

def countedIn (token : FixedBytes 32) (password : Text 64) (r : Room σ) : List Attempt → Nat
  | [] => 0
  | attempt :: attempts =>
    (if Counted token password r attempt then 1 else 0) + countedIn token password (r.answer o attempt).1 attempts

end Room

theorem PasswordGuard.roll_eq_iff {guard : PasswordGuard} {now : Instant} :
    guard.roll now = guard ↔ now - guard.windowStart < Duration.ofSecs 60 := by
  unfold roll
  constructor
  · intro same
    by_contra passed
    rw [if_pos (not_lt.mp passed)] at same
    have start : now = guard.windowStart := congrArg PasswordGuard.windowStart same
    rw [start, Nat.sub_self] at passed
    exact passed (by decide)
  · intro within
    exact if_neg (not_le.mpr within)

theorem PasswordGuard.roll_same {guard : PasswordGuard} {now : Instant}
    (same : (guard.roll now).windowStart = guard.windowStart) : guard.roll now = guard := by
  rw [roll_eq_iff]
  by_contra passed
  unfold roll at same
  rw [if_pos (not_lt.mp passed)] at same
  have start : now = guard.windowStart := same
  rw [start, Nat.sub_self] at passed
  exact passed (by decide)

namespace Room
variable {σ : Type} {o : Oracle} {r : Room σ} {token : FixedBytes 32} {password : Text 64} {attempt : Attempt}

theorem answer_unseated (sealed : r.secrets.Sealed r.id token password)
    (unseated : r.position attempt.new.player = none) : r.answer o attempt =
      if attempt.new.player ∈ r.banned ∨ attempt.token ≠ token then (r, .error .badInvite)
      else if attempt.password ≠ some password then
        ({ r with passwordGuard := r.passwordGuard.failed attempt.now }, .error .badInvite)
      else if (r.passwordGuard.roll attempt.now).failures < passwordFailuresPerMinute then
        { r with passwordGuard := r.passwordGuard.roll attempt.now }.admitMember o attempt.now attempt.new
          attempt.resume attempt.content
      else ({ r with passwordGuard := r.passwordGuard.roll attempt.now }, .error .badInvite) := by
  unfold answer join
  rw [sealed.check_eq, unseated]
  by_cases banned : attempt.new.player ∈ r.banned
  · simp [banned]
  by_cases held : attempt.token = token
  · by_cases right : attempt.password = some password
    · simp [banned, held, right, PasswordGuard.isOpen]
    · simp [banned, held, right]
  · simp [banned, held]

theorem answer_kept (o : Oracle) (r : Room σ) (attempt : Attempt) :
    (r.answer o attempt).1.id = r.id ∧ (r.answer o attempt).1.secrets = r.secrets ∧
      (r.answer o attempt).1.banned = r.banned := by
  have admitted (r : Room σ) : (r.admitMember o attempt.now attempt.new attempt.resume attempt.content).1.id = r.id ∧
      (r.admitMember o attempt.now attempt.new attempt.resume attempt.content).1.secrets = r.secrets ∧
      (r.admitMember o attempt.now attempt.new attempt.resume attempt.content).1.banned = r.banned := by
    have same := r.admit_door (o := o) attempt.now attempt.new attempt.resume attempt.content
    exact ⟨congrArg Door.id same, congrArg Door.secrets same, congrArg Door.banned same⟩
  unfold answer join
  split
  · exact ⟨rfl, rfl, rfl⟩
  dsimp only
  split
  · split
    · exact admitted r
    · split
      · exact admitted _
      · exact ⟨rfl, rfl, rfl⟩
  · split
    · exact ⟨rfl, rfl, rfl⟩
    · exact ⟨rfl, rfl, rfl⟩
  · exact ⟨rfl, rfl, rfl⟩

theorem answer_sealed (sealed : r.secrets.Sealed r.id token password) :
    (r.answer o attempt).1.secrets.Sealed (r.answer o attempt).1.id token password := by
  obtain ⟨id, secrets, _⟩ := answer_kept o r attempt
  rw [id, secrets]
  exact sealed

theorem answer_seated {index : Nat} (seated : r.position attempt.new.player = some index) :
    (r.answer o attempt).1.passwordGuard = r.passwordGuard := by
  unfold answer join
  rw [seated]
  split
  · rfl
  split
  · exact admit_guard r _ _ _ _
  · rfl
  · rfl

section
variable (sealed : r.secrets.Sealed r.id token password)
include sealed

theorem answer_guard (within : (r.answer o attempt).1.passwordGuard.windowStart = r.passwordGuard.windowStart) :
    (r.answer o attempt).1.passwordGuard.failures =
      if Counted token password r attempt then min (r.passwordGuard.failures + 1) (2 ^ 32 - 1)
      else r.passwordGuard.failures := by
  cases seat : r.position attempt.new.player with
  | some index =>
    have other : ¬ Counted token password r attempt := fun counted => nomatch seat.symm.trans counted.2.2.1
    rw [if_neg other, answer_seated seat]
  | none =>
    rw [answer_unseated sealed seat] at within ⊢
    by_cases away : attempt.new.player ∈ r.banned ∨ attempt.token ≠ token
    · have other : ¬ Counted token password r attempt := fun counted =>
        away.elim counted.2.2.2 fun wrong => wrong counted.1
      rw [if_pos away, if_neg other]
    rw [if_neg away] at within ⊢
    obtain ⟨free, held⟩ := not_or.mp away
    by_cases wrong : attempt.password ≠ some password
    · have counted : Counted token password r attempt := ⟨not_not.mp held, wrong, seat, free⟩
      rw [if_pos wrong] at within ⊢
      have same : r.passwordGuard.roll attempt.now = r.passwordGuard := PasswordGuard.roll_same within
      rw [if_pos counted]
      change min ((r.passwordGuard.roll attempt.now).failures + 1) _ = _
      rw [same]
    · have other : ¬ Counted token password r attempt := fun counted => wrong counted.2.1
      rw [if_neg wrong] at within ⊢
      rw [if_neg other]
      have rolled : (if (r.passwordGuard.roll attempt.now).failures < passwordFailuresPerMinute then
          { r with passwordGuard := r.passwordGuard.roll attempt.now }.admitMember o attempt.now attempt.new
            attempt.resume attempt.content
          else ({ r with passwordGuard := r.passwordGuard.roll attempt.now }, .error .badInvite)).1.passwordGuard =
          r.passwordGuard.roll attempt.now := by
        split
        · exact admit_guard _ _ _ _ _
        · rfl
      rw [rolled] at within ⊢
      rw [PasswordGuard.roll_same within]

theorem roll_within (within : (r.answer o attempt).1.passwordGuard.windowStart = r.passwordGuard.windowStart)
    (unseated : r.position attempt.new.player = none)
    (asked : ¬ (attempt.new.player ∈ r.banned ∨ attempt.token ≠ token)) :
    r.passwordGuard.roll attempt.now = r.passwordGuard := by
  rw [answer_unseated sealed unseated, if_neg asked] at within
  split at within
  · exact PasswordGuard.roll_same within
  split at within
  · rw [admit_guard] at within
    exact PasswordGuard.roll_same within
  · exact PasswordGuard.roll_same within

theorem answer_shut (unseated : r.position attempt.new.player = none)
    (still : ¬ (attempt.new.player ∈ r.banned ∨ attempt.token ≠ token) →
      r.passwordGuard.roll attempt.now = r.passwordGuard)
    (shut : passwordFailuresPerMinute ≤ r.passwordGuard.failures) :
    ∃ guard : PasswordGuard, r.answer o attempt = ({ r with passwordGuard := guard }, .error .badInvite) ∧
      guard.windowStart = r.passwordGuard.windowStart ∧ passwordFailuresPerMinute ≤ guard.failures := by
  rw [answer_unseated sealed unseated]
  split
  · exact ⟨r.passwordGuard, rfl, rfl, shut⟩
  rename_i asked
  have same := still asked
  split
  · refine ⟨r.passwordGuard.failed attempt.now, rfl, ?_, ?_⟩
    · change (r.passwordGuard.roll attempt.now).windowStart = _
      rw [same]
    · change _ ≤ min ((r.passwordGuard.roll attempt.now).failures + 1) _
      rw [same]
      exact Nat.le_min.mpr ⟨Nat.le_succ_of_le shut, by decide⟩
  · rw [same, if_neg (not_lt.mpr shut)]
    exact ⟨r.passwordGuard, rfl, rfl, shut⟩

end

variable {tag : Option Bytes} {twin : Room σ} {attempts : List Attempt}

theorem failures_counted (sealed : r.secrets.Sealed r.id token password) (window : r.SameWindow o attempts) :
    min passwordFailuresPerMinute (r.passwordGuard.failures + r.countedIn o token password attempts) ≤
      (r.afterAttempts o attempts).passwordGuard.failures := by
  induction attempts generalizing r with
  | nil => exact Nat.min_le_right _ _
  | cons attempt attempts ih =>
    have step := answer_guard sealed window.1
    have rest := ih (answer_sealed sealed) window.2
    have limit : passwordFailuresPerMinute < 2 ^ 32 - 1 := by decide
    change _ ≤ ((r.answer o attempt).1.afterAttempts o attempts).passwordGuard.failures
    unfold countedIn
    rw [step] at rest
    generalize 2 ^ 32 - 1 = most at rest limit
    split at rest
    · next counted => rw [if_pos counted]; omega
    · next other => rw [if_neg other]; omega

theorem SameWindow.last (window : r.SameWindow o (attempts ++ [attempt])) :
    r.SameWindow o attempts ∧ ((r.afterAttempts o attempts).answer o attempt).1.passwordGuard.windowStart =
      (r.afterAttempts o attempts).passwordGuard.windowStart := by
  induction attempts generalizing r with
  | nil => exact ⟨trivial, window.1⟩
  | cons first attempts ih =>
    obtain ⟨rest, here⟩ := ih window.2
    exact ⟨⟨window.1, rest⟩, here⟩

theorem afterAttempts_sealed (sealed : r.secrets.Sealed r.id token password) (attempts : List Attempt) :
    (r.afterAttempts o attempts).secrets.Sealed (r.afterAttempts o attempts).id token password := by
  induction attempts generalizing r with
  | nil => exact sealed
  | cons attempt attempts ih => exact ih (answer_sealed sealed)

/-- While fewer than ten failures were counted, nobody who holds the invite and is not banned tries either
of two passwords. -/
def Careful (o : Oracle) (token : FixedBytes 32) (password other : Text 64) : Nat → Room σ → List Attempt → Prop
  | _, _, [] => True
  | count, r, attempt :: attempts =>
    (count < passwordFailuresPerMinute → attempt.token = token → attempt.new.player ∉ r.banned →
      attempt.password ≠ some password ∧ attempt.password ≠ some other) ∧
    Careful o token password other (count + if Counted token password r attempt then 1 else 0)
      (r.answer o attempt).1 attempts

instance Careful.decide (o : Oracle) (token : FixedBytes 32) (password other : Text 64) :
    (count : Nat) → (r : Room σ) → (attempts : List Attempt) →
      Decidable (Careful o token password other count r attempts)
  | _, _, [] => .isTrue trivial
  | count, r, attempt :: attempts =>
    have := Careful.decide o token password other (count + if Counted token password r attempt then 1 else 0)
      (r.answer o attempt).1 attempts
    inferInstanceAs (Decidable (_ ∧ _))

/-- The same room with another password, once they have been asked the same things. -/
structure Twin (tag : Option Bytes) (r twin : Room σ) : Prop where
  same : twin = { r with secrets := { r.secrets with passwordTag := tag }, passwordGuard := twin.passwordGuard }
  window : twin.passwordGuard.windowStart = r.passwordGuard.windowStart
  guards : twin.passwordGuard = r.passwordGuard ∨
    passwordFailuresPerMinute ≤ r.passwordGuard.failures ∧ passwordFailuresPerMinute ≤ twin.passwordGuard.failures

section
variable (alike : Twin tag r twin)
include alike

theorem Twin.eq : ∃ guard : PasswordGuard,
    twin = { r with secrets := { r.secrets with passwordTag := tag }, passwordGuard := guard } :=
  ⟨_, alike.same⟩

theorem Twin.position (player : PlayerId) : twin.position player = r.position player := by
  rw [alike.same]
  rfl

theorem Twin.answer {other : Text 64} (sealed : r.secrets.Sealed r.id token password)
    (sealed' : twin.secrets.Sealed twin.id token other) (unseated : r.position attempt.new.player = none)
    (within : (r.answer o attempt).1.passwordGuard.windowStart = r.passwordGuard.windowStart)
    (careful : r.passwordGuard.failures < passwordFailuresPerMinute → attempt.token = token →
      attempt.new.player ∉ r.banned → attempt.password ≠ some password ∧ attempt.password ≠ some other) :
    (r.answer o attempt).2 = .error .badInvite ∧ (twin.answer o attempt).2 = .error .badInvite ∧
      (r.answer o attempt).1.members = r.members ∧ Twin tag (r.answer o attempt).1 (twin.answer o attempt).1 := by
  have unseated' : twin.position attempt.new.player = none := (alike.position _).trans unseated
  have window := alike.window
  have guards := alike.guards
  obtain ⟨guard, rfl⟩ := alike.eq
  by_cases shut : passwordFailuresPerMinute ≤ r.passwordGuard.failures
  · have shut' : passwordFailuresPerMinute ≤ guard.failures := by
      rcases guards with same | both
      · rwa [← same] at shut
      · exact both.2
    have still := roll_within sealed within unseated
    obtain ⟨guard₁, refused, start, closed⟩ := answer_shut sealed unseated still shut
    obtain ⟨guard₂, refused', start', closed'⟩ := answer_shut sealed' unseated'
      (fun asked => PasswordGuard.roll_eq_iff.mpr (window ▸ PasswordGuard.roll_eq_iff.mp (still asked))) shut'
    rw [refused, refused']
    exact ⟨rfl, rfl, rfl, rfl, start'.trans (window.trans start.symm), .inr ⟨closed, closed'⟩⟩
  · obtain same : guard = r.passwordGuard := guards.resolve_right fun both => shut both.1
    subst same
    rw [answer_unseated sealed unseated, answer_unseated sealed' unseated']
    by_cases away : attempt.new.player ∈ r.banned ∨ attempt.token ≠ token
    · rw [if_pos away, if_pos away]
      exact ⟨rfl, rfl, rfl, rfl, rfl, .inl rfl⟩
    obtain ⟨free, held⟩ := not_or.mp away
    obtain ⟨wrong, wrong'⟩ := careful (not_le.mp shut) (not_not.mp held) free
    rw [if_neg away, if_neg away, if_pos wrong, if_pos wrong']
    exact ⟨rfl, rfl, rfl, rfl, rfl, .inl rfl⟩

theorem Twin.answers {other : Text 64} {count : Nat} (sealed : r.secrets.Sealed r.id token password)
    (sealed' : twin.secrets.Sealed twin.id token other)
    (unseated : ∀ attempt ∈ attempts, r.position attempt.new.player = none) (window : r.SameWindow o attempts)
    (known : min passwordFailuresPerMinute count ≤ r.passwordGuard.failures)
    (careful : Careful o token password other count r attempts) : r.answers o attempts = twin.answers o attempts := by
  induction attempts generalizing r twin count with
  | nil => rfl
  | cons attempt attempts ih =>
    obtain ⟨here, later⟩ := careful
    have early (open' : r.passwordGuard.failures < passwordFailuresPerMinute) : count < passwordFailuresPerMinute := by
      omega
    obtain ⟨refused, refused', members, alike'⟩ := alike.answer sealed sealed' (unseated attempt mem_cons_self)
      window.1 fun open' => here (early open')
    have step := answer_guard sealed window.1
    have rest := ih alike' (answer_sealed sealed) (answer_sealed sealed') ?_ window.2 ?_ later
    · unfold answers
      rw [refused, refused', rest]
    · intro next among
      have before := unseated next (mem_cons_of_mem _ among)
      unfold Room.position at before ⊢
      rwa [members]
    · have limit : passwordFailuresPerMinute < 2 ^ 32 - 1 := by decide
      rw [step]
      generalize 2 ^ 32 - 1 = most at limit
      split
      · omega
      · omega

end

end Room

/-- Once ten failures were counted in a window of the guard, it refuses everyone in it who is not seated,
whatever their password. So two rooms that differ only in their password answer alike. -/
theorem password_guard_closes {σ : Type} (o : Oracle) (token : FixedBytes 32) (password : Text 64) (r : Room σ)
    (sealed : r.secrets.Sealed r.id token password) :
    (∀ attempts attempt, r.SameWindow o (attempts ++ [attempt]) →
      10 ≤ r.countedIn o token password attempts →
      (r.afterAttempts o attempts).position attempt.new.player = none →
      ((r.afterAttempts o attempts).answer o attempt).2 = .error .badInvite ∧
        ((r.afterAttempts o attempts).answer o attempt).1.members = (r.afterAttempts o attempts).members) ∧
    (∀ tag other attempts,
      RoomSecrets.Sealed { r.secrets with passwordTag := tag } r.id token other →
      (∀ attempt ∈ attempts, r.position attempt.new.player = none) → r.SameWindow o attempts →
      Room.Careful o token password other r.passwordGuard.failures r attempts →
      r.answers o attempts = { r with secrets := { r.secrets with passwordTag := tag } }.answers o attempts) := by
  constructor
  · intro attempts attempt window many unseated
    obtain ⟨earlier, within⟩ := window.last
    have sealed' := Room.afterAttempts_sealed (o := o) sealed attempts
    have counted := Room.failures_counted sealed earlier
    have ten : passwordFailuresPerMinute = 10 := rfl
    have shut : passwordFailuresPerMinute ≤ (r.afterAttempts o attempts).passwordGuard.failures := by omega
    obtain ⟨guard, refused, _⟩ := Room.answer_shut sealed' unseated
      (Room.roll_within sealed' within unseated) shut
    rw [refused]
    exact ⟨rfl, rfl⟩
  · intro tag other attempts sealed' unseated window careful
    exact Room.Twin.answers ⟨rfl, rfl, .inl rfl⟩ sealed sealed' unseated window (Nat.min_le_right _ _) careful

def plainToken : FixedBytes 32 := .fill 32 9

def plainPassword : Text 64 := ⟨"open", by decide⟩

def otherPassword : Text 64 := ⟨"shut", by decide⟩

def guardedRoom : Room Unit :=
  { Room.plainRoom with
    secrets :=
      { verify := fun input tag => input = tag
        inviteTag := RoomSecrets.inviteInput Room.plainRoom.id plainToken
        passwordTag := some (RoomSecrets.passwordInput Room.plainRoom.id plainPassword) } }

theorem guardedRoom_sealed (password : Text 64) : RoomSecrets.Sealed
      { guardedRoom.secrets with passwordTag := some (RoomSecrets.passwordInput guardedRoom.id password) }
      guardedRoom.id plainToken password where
  invite _ := decide_eq_true_iff
  password := ⟨_, rfl, fun _ => decide_eq_true_iff⟩

def guess (password : Option (Text 64)) : Attempt :=
  ⟨5, Room.plainPlayer 2, plainToken, password, none, none⟩

theorem password_guard_closes_plain :
    ((guardedRoom.afterAttempts Room.steady (replicate 10 (guess none))).answer Room.steady
      (guess (some plainPassword))).2 = .error .badInvite ∧
    guardedRoom.answers Room.steady (replicate 10 (guess none) ++ [guess (some plainPassword)]) =
      { guardedRoom with secrets := { guardedRoom.secrets with
          passwordTag := some (RoomSecrets.passwordInput guardedRoom.id otherPassword) } }.answers Room.steady
        (replicate 10 (guess none) ++ [guess (some plainPassword)]) := by
  have closes := password_guard_closes Room.steady plainToken plainPassword guardedRoom
    (guardedRoom_sealed plainPassword)
  constructor
  · exact (closes.1 (replicate 10 (guess none)) (guess (some plainPassword)) (by decide +kernel)
      (by decide +kernel) (by decide +kernel)).1
  · exact closes.2 _ otherPassword _ (guardedRoom_sealed otherPassword) (by decide +kernel) (by decide +kernel)
      (by decide +kernel)

end Tpf3Mp.Server
