/-
# How often a `tcp_server` reports accept errors

An observer notes what one listener's back-off goes through: the accepts that succeed or
fail transiently, the reports to `OnAcceptError`, and the waits of the retry timer.  The
back-off doubles with every failure of a streak, and a success ends the streak
(`Played`), so that at most two reports fall into any 500 ms of waiting if and only if of
three streaks in a row the first two have lasted that long.
-/
import Libsg.RateLimit
import Libsg.TcpServerLock

open TransitionSystem RateLimit

namespace TcpServer

/-! ## The observer of one listener -/

/-- How an accept went that does not end the listener. -/
inductive Outcome
  | accepted
  /-- with a transient error -/
  | failed
  deriving DecidableEq, Repr

/-- What the observer notes. -/
inductive BackoffNote
  | outcome (r : Outcome)
  /-- `OnAcceptError` is invoked -/
  | reported
  /-- the retry timer is armed, in milliseconds -/
  | waited (backoff : ℕ)
  deriving DecidableEq, Repr

/-- The calls of `OnAcceptError` by listener `l`, among the events of a step. -/
def reports (l : ℕ) (es : List Event) : List BackoffNote :=
  es.filterMap fun
    | .acceptError j _ => if j = l then some .reported else none
    | _ => none

/-- The accept whose result listener `l` looks at, and the timer it arms. -/
def Server.attempt (s : Server) (l : ℕ) : Action → List BackoffNote
  | .listener j _ =>
    if j = l then match (s.listeners l).pc with
      | .completed none => [.outcome .accepted]
      | .checkTransient _ => if s.stopInOperation then [] else [.outcome .failed]
      | .armTimer => [.waited (s.listeners l).backoff]
      | _ => []
    else []
  | _ => []

/-- The notes of a step, the newest first. -/
def Server.backoffNotes (s : Server) (l : ℕ) (a : Action) (es : List Event) : List BackoffNote :=
  reports l es ++ s.attempt l a

/-- A server beside the observer of listener `l`. -/
def backoffSystem (o : TcpSession.Options) (l : ℕ) :
    TransitionSystem (Server × List BackoffNote) Action Event :=
  (system o).recorded [] fun log s a es => s.backoffNotes l a es ++ log

/-! ## Reports and waits -/

def BackoffNote.lasts : BackoffNote → ℕ
  | .waited backoff => backoff
  | _ => 0

def BackoffNote.isReport : BackoffNote → Bool
  | .reported => true
  | _ => false

/-- At most two reports fall into any stretch of less than 500 ms of waiting. -/
def ReportsRarely (log : List BackoffNote) : Prop :=
  Limited BackoffNote.lasts BackoffNote.isReport 2 500 log

/-- How long the timer has waited since the report before the last `n`. -/
def sinceReport (n : ℕ) (log : List BackoffNote) : Option ℕ :=
  since BackoffNote.lasts BackoffNote.isReport n log

/-- The accepts, the newest first. -/
def outcomes (log : List BackoffNote) : List Outcome :=
  log.filterMap fun
    | .outcome r => some r
    | _ => none

/-- The failures since the last success. -/
def current : List Outcome → ℕ
  | .failed :: rs => current rs + 1
  | _ => 0

/-- The lengths of the streaks of failures, the newest first. -/
def streaks : List Outcome → List ℕ
  | [] => []
  | .accepted :: rs => streaks rs
  | .failed :: rs =>
    (current rs + 1) :: if current rs = 0 then streaks rs else (streaks rs).tail

/-- Of three streaks in a row, of `k₁`, `k₂` and `k₃` failures, the first two have kept the timer
waiting for 500 ms: a streak of `k` failures waits for `1 + 2 + 4 + ..` ms, before its ninth. -/
def Spaced (rs : List Outcome) : Prop :=
  ∀ k₁ k₂ k₃, [k₃, k₂, k₁] <:+: streaks rs → 500 ≤ (2 ^ k₁ - 1) + (2 ^ k₂ - 1)

/-! ## The back-off of a listener -/

/-- A failure is reported under this back-off. -/
def reportsAt (backoff : ℕ) : Bool :=
  decide (backoff = acceptRetryMin ∨ acceptRetryMax ≤ backoff)

/-- What a listener reports of a failure. -/
def told (backoff : ℕ) : List BackoffNote := if reportsAt backoff then [.reported] else []

/-- A listener at the head of its loop, with this back-off, has gone through `log`. -/
inductive Played : ℕ → List BackoffNote → Prop
  | start : Played acceptRetryMin []
  | accepted {backoff : ℕ} {log : List BackoffNote} (h : Played backoff log) :
      Played acceptRetryMin (.outcome .accepted :: log)
  | failed {backoff : ℕ} {log : List BackoffNote} (h : Played backoff log) :
      Played (min (backoff * 2) acceptRetryMax)
        (.waited backoff :: (told backoff ++ .outcome .failed :: log))

/-- How long the timer has waited since the last report of a streak of `k` failures. -/
def span (k : ℕ) : ℕ := if k ≤ 9 then 2 ^ k - 1 else 500

theorem current_eq_head (rs : List Outcome) (h : current rs ≠ 0) :
    streaks rs = current rs :: (streaks rs).tail := by
  cases rs with
  | nil => exact absurd rfl h
  | cons r rs =>
    cases r with
    | accepted => exact absurd rfl h
    | failed => rfl

/-- The spans of two streaks make up 500 ms when their waits do. -/
theorem span_add_span {k₁ k₂ : ℕ} : 500 ≤ span k₂ + span k₁ ↔ 500 ≤ (2 ^ k₁ - 1) + (2 ^ k₂ - 1) := by
  have hlong {k : ℕ} (hk : ¬k ≤ 9) : 2 ^ 10 ≤ 2 ^ k := Nat.pow_le_pow_right (by decide) (by omega)
  unfold span
  split <;> split
  · omega
  · have := hlong ‹_›
    omega
  · have := hlong ‹_›
    omega
  · have := hlong ‹¬k₁ ≤ 9›
    omega

theorem span_succ {k : ℕ} (hk : k ≤ 8) : span (k + 1) = span k + 2 ^ k := by
  have hpos : 0 < 2 ^ k := Nat.two_pow_pos k
  rw [span, span, if_pos (by omega), if_pos (by omega), Nat.pow_succ]
  omega

theorem bounds_min : acceptRetryMin ≤ acceptRetryMin ∧ acceptRetryMin ≤ acceptRetryMax := by
  decide

/-- The back-off never leaves its bounds. -/
theorem Played.bounds {backoff : ℕ} {log : List BackoffNote} (h : Played backoff log) :
    acceptRetryMin ≤ backoff ∧ backoff ≤ acceptRetryMax := by
  induction h with
  | start => exact bounds_min
  | accepted h ih => exact bounds_min
  | failed h ih =>
    rw [acceptRetryMin, acceptRetryMax] at ih ⊢
    omega

/-! ## Streaks -/

/-- The condition on the streaks that come before a new one. -/
theorem spaced_cons {k : ℕ} {ks : List ℕ} :
    (∀ k₁ k₂ k₃, [k₃, k₂, k₁] <:+: k :: ks → 500 ≤ (2 ^ k₁ - 1) + (2 ^ k₂ - 1)) ↔
      (∀ k₁ k₂ k₃, [k₃, k₂, k₁] <:+: ks → 500 ≤ (2 ^ k₁ - 1) + (2 ^ k₂ - 1)) ∧
      ∀ k₁ k₂, [k₂, k₁] <+: ks → 500 ≤ (2 ^ k₁ - 1) + (2 ^ k₂ - 1) := by
  constructor
  · intro h
    refine ⟨fun k₁ k₂ k₃ hinfix => h k₁ k₂ k₃ (List.infix_cons hinfix), fun k₁ k₂ hstart => ?_⟩
    exact h k₁ k₂ k (List.cons_prefix_cons.mpr ⟨rfl, hstart⟩).isInfix
  · rintro ⟨hold, hnew⟩ k₁ k₂ k₃ hinfix
    rcases List.infix_cons_iff.mp hinfix with hstart | hinfix'
    · exact hnew k₁ k₂ (List.cons_prefix_cons.mp hstart).2
    · exact hold k₁ k₂ k₃ hinfix'

/-- A failure that begins a streak. -/
theorem spaced_failed_new {rs : List Outcome} (h : current rs = 0) :
    Spaced (.failed :: rs) ↔
      Spaced rs ∧ ∀ k₁ k₂, [k₂, k₁] <+: streaks rs → 500 ≤ (2 ^ k₁ - 1) + (2 ^ k₂ - 1) := by
  have hstreaks : streaks (.failed :: rs) = (current rs + 1) :: streaks rs := by
    rw [streaks, if_pos h]
  rw [Spaced, hstreaks]
  exact spaced_cons

/-- A failure within a streak. -/
theorem spaced_failed_old {rs : List Outcome} (h : current rs ≠ 0) :
    Spaced (.failed :: rs) ↔ Spaced rs := by
  have hstreaks : streaks (.failed :: rs) = (current rs + 1) :: (streaks rs).tail := by
    rw [streaks, if_neg h]
  rw [Spaced, Spaced, hstreaks, current_eq_head rs h, spaced_cons, List.tail_cons, spaced_cons]

/-! ## What the reports have to do with the streaks -/

theorem outcomes_played (backoff : ℕ) (log : List BackoffNote) :
    outcomes (.waited backoff :: (told backoff ++ .outcome .failed :: log)) =
      .failed :: outcomes log := by
  unfold told
  split <;> rfl

/-- When the report before the last one was made. -/
def Before (log : List BackoffNote) : List ℕ → Prop
  | [] => sinceReport 1 log = none
  | k :: ks =>
    if k ≤ 9 then sinceReport 1 log = ks.head?.map fun k' => span k' + span k
    else ∃ t, sinceReport 1 log = some t ∧ 500 ≤ t

/-- What the notes say about the streaks. -/
structure StreakInv (backoff : ℕ) (log : List BackoffNote) : Prop where
  back : backoff = min (2 ^ current (outcomes log)) acceptRetryMax
  last : sinceReport 0 log = (streaks (outcomes log)).head?.map span
  before : Before log (streaks (outcomes log))
  rarely : ReportsRarely log ↔ Spaced (outcomes log)

section Streaks

variable {backoff : ℕ} {log : List BackoffNote}

theorem since_outcome (n : ℕ) (r : Outcome) :
    sinceReport n (.outcome r :: log) = sinceReport n log :=
  since_skip rfl rfl

theorem since_waited (n : ℕ) :
    sinceReport n (.waited backoff :: log) = (sinceReport n log).map (· + backoff) :=
  since_of_not_counts rfl

theorem since_reported_zero : sinceReport 0 (.reported :: log) = some 0 :=
  since_zero_of_counts rfl

theorem since_reported_succ (n : ℕ) :
    sinceReport (n + 1) (.reported :: log) = sinceReport n log := by
  have h : sinceReport (n + 1) (.reported :: log) = (sinceReport n log).map (· + 0) :=
    since_succ_of_counts rfl
  rw [h]
  simp

theorem rarely_outcome (r : Outcome) : ReportsRarely (.outcome r :: log) ↔ ReportsRarely log :=
  limited_cons_of_not_counts rfl

theorem rarely_waited : ReportsRarely (.waited backoff :: log) ↔ ReportsRarely log :=
  limited_cons_of_not_counts rfl

/-- A report comes in time when the one before the last is 500 ms back. -/
theorem rarely_reported : ReportsRarely (.reported :: log) ↔
    ReportsRarely log ∧ ∀ t, sinceReport 1 log = some t → 500 ≤ t :=
  limited_cons_of_counts rfl rfl

/-- The last two streaks span 500 ms if and only if the report before the last one is that far
back. -/
theorem StreakInv.before_iff (h : StreakInv backoff log) :
    (∀ t, sinceReport 1 log = some t → 500 ≤ t) ↔
      ∀ k₁ k₂, [k₂, k₁] <+: streaks (outcomes log) → 500 ≤ (2 ^ k₁ - 1) + (2 ^ k₂ - 1) := by
  have hbefore := h.before
  cases hks : streaks (outcomes log) with
  | nil =>
    rw [hks] at hbefore
    rw [show sinceReport 1 log = none from hbefore]
    exact ⟨fun _ k₁ k₂ hstart => absurd (List.prefix_nil.mp hstart) (List.cons_ne_nil _ _),
      fun _ => nofun⟩
  | cons k ks =>
    rw [hks, Before] at hbefore
    split at hbefore
    · cases ks with
      | nil =>
        rw [hbefore]
        refine ⟨fun _ k₁ k₂ hstart => ?_, fun _ => nofun⟩
        have hlen := hstart.length_le
        simp at hlen
      | cons k' ks =>
        rw [hbefore]
        simp only [List.head?_cons, Option.map_some, Option.some.injEq, forall_eq',
          List.cons_prefix_cons, List.nil_prefix, and_true]
        rw [Nat.add_comm (span k'), span_add_span]
        constructor
        · rintro hlong k₁ k₂ ⟨rfl, rfl⟩
          exact hlong
        · intro hall
          exact hall k' k ⟨rfl, rfl⟩
    · next hk =>
      obtain ⟨t, ht, hlong⟩ := hbefore
      have hpow : 2 ^ 10 ≤ 2 ^ k := Nat.pow_le_pow_right (by decide) (by omega)
      constructor
      · intro _ k₁ k₂ hstart
        obtain ⟨rfl, -⟩ := List.cons_prefix_cons.mp hstart
        omega
      · intro _ t' ht'
        rw [ht] at ht'
        cases ht'
        exact hlong

namespace StreakInv

theorem start : StreakInv acceptRetryMin [] where
  back := rfl
  last := rfl
  before := rfl
  rarely := by
    refine ⟨fun _ k₁ k₂ k₃ hinfix => ?_, fun _ => limited_nil⟩
    exact absurd (List.eq_nil_of_infix_nil hinfix) (List.cons_ne_nil _ _)

theorem accepted (h : StreakInv backoff log) :
    StreakInv acceptRetryMin (.outcome .accepted :: log) := by
  have houtcomes : outcomes (.outcome .accepted :: log) = .accepted :: outcomes log := rfl
  have hbefore : ∀ ks, Before log ks → Before (.outcome .accepted :: log) ks := by
    intro ks hks
    cases ks with
    | nil =>
      show sinceReport 1 _ = none
      rw [since_outcome]
      exact hks
    | cons k ks =>
      rw [Before, since_outcome]
      exact hks
  refine ⟨rfl, ?_, hbefore _ h.before, ?_⟩
  · rw [since_outcome, houtcomes]
    exact h.last
  · rw [rarely_outcome]
    exact h.rarely

/-- A failure that begins a streak is reported. -/
theorem begins (h : StreakInv backoff log) (hnew : current (outcomes log) = 0) :
    StreakInv (min (backoff * 2) acceptRetryMax)
      (.waited backoff :: (told backoff ++ .outcome .failed :: log)) := by
  have hback : backoff = 1 := by
    rw [h.back, hnew]
    rfl
  subst hback
  have htold : told 1 ++ BackoffNote.outcome .failed :: log =
      .reported :: .outcome .failed :: log := rfl
  have hstreaks : streaks (.failed :: outcomes log) = 1 :: streaks (outcomes log) := by
    rw [streaks, hnew]
    rfl
  refine ⟨?_, ?_, ?_, ?_⟩
  · rw [outcomes_played, current, hnew]
    rfl
  · rw [outcomes_played, hstreaks, htold, since_waited, since_reported_zero]
    rfl
  · rw [outcomes_played, hstreaks, htold, Before, if_pos (by decide), since_waited,
      since_reported_succ, since_outcome, h.last, Option.map_map]
    rfl
  · rw [outcomes_played, spaced_failed_new hnew, htold, rarely_waited, rarely_reported,
      rarely_outcome, since_outcome, h.rarely, h.before_iff]

/-- A failure within a streak is reported from the tenth on. -/
theorem goesOn (h : StreakInv backoff log) (hold : current (outcomes log) ≠ 0) :
    StreakInv (min (backoff * 2) acceptRetryMax)
      (.waited backoff :: (told backoff ++ .outcome .failed :: log)) := by
  obtain ⟨k, hk⟩ : ∃ k, current (outcomes log) = k := ⟨_, rfl⟩
  obtain ⟨ks, hks⟩ : ∃ ks, streaks (outcomes log) = k :: ks :=
    ⟨_, hk ▸ current_eq_head (outcomes log) hold⟩
  rw [hk] at hold
  have hstreaks : streaks (.failed :: outcomes log) = (k + 1) :: ks := by
    rw [streaks, hk, if_neg hold, hks, List.tail_cons]
  have hback : backoff = min (2 ^ k) 500 := by
    rw [h.back, hk]
    rfl
  have hlast : sinceReport 0 log = some (span k) := by
    rw [h.last, hks]
    rfl
  have hbefore := h.before
  rw [hks, Before] at hbefore
  have hnext : min (backoff * 2) acceptRetryMax = min (2 ^ (k + 1)) acceptRetryMax := by
    rw [hback, Nat.pow_succ, acceptRetryMax]
    omega
  by_cases hshort : k ≤ 8
  · -- the streak is not reported again before its tenth failure
    have hpow : 2 ^ 1 ≤ 2 ^ k ∧ 2 ^ k ≤ 2 ^ 8 :=
      ⟨Nat.pow_le_pow_right (by decide) (by omega), Nat.pow_le_pow_right (by decide) hshort⟩
    have hbackoff : backoff = 2 ^ k := by omega
    have hquiet : reportsAt backoff = false := by
      rw [reportsAt, acceptRetryMin, acceptRetryMax, decide_eq_false_iff_not]
      omega
    have htold : told backoff ++ BackoffNote.outcome .failed :: log =
        .outcome .failed :: log := by
      rw [told, hquiet]
      rfl
    rw [if_pos (by omega)] at hbefore
    refine ⟨?_, ?_, ?_, ?_⟩
    · rw [outcomes_played, current, hk]
      exact hnext
    · rw [outcomes_played, hstreaks, htold, since_waited, since_outcome, hlast, hbackoff]
      exact congrArg some (span_succ hshort).symm
    · rw [outcomes_played, hstreaks, htold, Before, if_pos (by omega), since_waited, since_outcome,
        hbefore, hbackoff, span_succ hshort, Option.map_map]
      congr 1
      funext k'
      exact Nat.add_assoc _ _ _
    · rw [outcomes_played, spaced_failed_old (hk ▸ hold), htold, rarely_waited, rarely_outcome]
      exact h.rarely
  · -- the back-off is at its maximum: the failure is reported, 500 ms after the last one
    have hpow : 2 ^ 9 ≤ 2 ^ k := Nat.pow_le_pow_right (by decide) (by omega)
    have hbackoff : backoff = 500 := by omega
    subst hbackoff
    have htold : told 500 ++ BackoffNote.outcome .failed :: log =
        .reported :: .outcome .failed :: log := rfl
    have hspan : span (k + 1) = 500 := if_neg (by omega)
    have hlong : ∀ t, sinceReport 1 log = some t → 500 ≤ t := by
      intro t ht
      by_cases hnine : k ≤ 9
      · rw [if_pos hnine, ht] at hbefore
        obtain ⟨k', -, hk'⟩ := Option.map_eq_some_iff.mp hbefore.symm
        have hspan9 : span k = 2 ^ k - 1 := if_pos hnine
        omega
      · rw [if_neg hnine] at hbefore
        obtain ⟨t', ht', hle⟩ := hbefore
        rw [ht] at ht'
        cases ht'
        exact hle
    refine ⟨?_, ?_, ?_, ?_⟩
    · rw [outcomes_played, current, hk]
      exact hnext
    · rw [outcomes_played, hstreaks, htold, since_waited, since_reported_zero, List.head?_cons,
        Option.map_some, Option.map_some, hspan]
    · rw [outcomes_played, hstreaks, htold, Before, if_neg (by omega), since_waited,
        since_reported_succ, since_outcome, hlast]
      exact ⟨_, rfl, Nat.le_add_left _ _⟩
    · rw [outcomes_played, spaced_failed_old (hk ▸ hold), htold, rarely_waited, rarely_reported,
        rarely_outcome, since_outcome, h.rarely]
      exact ⟨And.left, fun hspaced => ⟨hspaced, hlong⟩⟩

end StreakInv

/-- **Reports are rare if and only if the streaks are spaced**, whatever the listener has met. -/
theorem Played.streakInv (h : Played backoff log) : StreakInv backoff log := by
  induction h with
  | start => exact .start
  | accepted h ih => exact ih.accepted
  | @failed backoff log h ih =>
    by_cases hnew : current (outcomes log) = 0
    · exact ih.begins hnew
    · exact ih.goesOn hnew

end Streaks

/-! ## What a listener does -/

/-- What a listener has gone through, from where it stands. -/
def Listener.Plays (L : Listener) (log : List BackoffNote) : Prop :=
  match L.pc with
  | .reporting => ∃ old, Played L.backoff old ∧ reportsAt L.backoff = true ∧
      log = .reported :: .outcome .failed :: old
  | .armTimer => ∃ old, Played L.backoff old ∧ log = told L.backoff ++ .outcome .failed :: old
  | .backingOff | .timerDone => Played (min (L.backoff * 2) acceptRetryMax) log
  | _ => Played L.backoff log

/-- The places where the back-off is that of the next failure. -/
def ListenerPc.plain : ListenerPc → Bool
  | .reporting | .armTimer | .backingOff | .timerDone => false
  | _ => true

theorem plays_of_plain {L : Listener} {log : List BackoffNote} (h : L.pc.plain = true) :
    L.Plays log ↔ Played L.backoff log := by
  unfold Listener.Plays
  split <;> first | exact Iff.rfl | (next hpc => rw [hpc] at h; cases h)

/-- The back-off is within its bounds, and belongs to what the listener has gone through. -/
structure BackoffInv (L : Listener) (log : List BackoffNote) : Prop where
  bounds : acceptRetryMin ≤ L.backoff ∧ L.backoff ≤ acceptRetryMax
  plays : L.Plays log

section Step

variable {o : TcpSession.Options} {s s' : Server} {a : Action} {es : List Event} {l : ℕ}
  {log : List BackoffNote}

theorem BackoffInv.start : BackoffInv {} [] := ⟨by decide, .start⟩

/-- A listener that is told nothing of its back-off. -/
theorem BackoffInv.same {L L' : Listener} (h : BackoffInv L log) (hbackoff : L'.backoff = L.backoff)
    (hplays : L.Plays log → L'.Plays log) : BackoffInv L' log :=
  ⟨hbackoff ▸ h.bounds, hplays h.plays⟩

theorem setListener_self {L : Listener} : (s.setListener l L).listeners l = L := by
  simp only [Server.setListener, Function.update_self]

/-- What a step of the listener notes. -/
theorem backoffNotes_self (ch : TcpSession.Choice) :
    s.backoffNotes l (.listener l ch) es = reports l es ++ match (s.listeners l).pc with
      | .completed none => [.outcome .accepted]
      | .checkTransient _ => if s.stopInOperation then [] else [.outcome .failed]
      | .armTimer => [.waited (s.listeners l).backoff]
      | _ => [] := by
  rw [Server.backoffNotes, Server.attempt, if_pos rfl]

/-- A step of the listener itself. -/
theorem BackoffInv.listener {ch : TcpSession.Choice} (h : BackoffInv (s.listeners l) log)
    (hstep : TcpServer.listener s l ch = some (s', es)) :
    BackoffInv (s'.listeners l) (s.backoffNotes l (.listener l ch) es ++ log) := by
  have hmoves {pc : ListenerPc} {es : List Event}
      (hnew : s'.listeners l = { s.listeners l with pc := pc })
      (hnotes : s.backoffNotes l (.listener l ch) es = []) (hold : (s.listeners l).pc.plain = true)
      (hpc : pc.plain = true) :
      BackoffInv (s'.listeners l) (s.backoffNotes l (.listener l ch) es ++ log) := by
    rw [hnew, hnotes]
    refine h.same rfl fun hplays => ?_
    rw [plays_of_plain hpc]
    exact (plays_of_plain hold).mp hplays
  have hquiet : reports l [] = [] := rfl
  unfold TcpServer.listener at hstep
  simp only at hstep
  split at hstep
  case h_1 hpc =>
    cases hstep
    refine hmoves setListener_self (by rw [backoffNotes_self, hpc, hquiet]; rfl) (by rw [hpc]; rfl) ?_
    split <;> rfl
  case h_2 hpc =>
    cases hstep
    rw [backoffNotes_self, hpc, setListener_self]
    have hplayed := (plays_of_plain (by rw [hpc]; rfl)).mp h.plays
    exact ⟨bounds_min, hplayed.accepted⟩
  case h_3 ec hpc =>
    have hnotes : s.backoffNotes l (.listener l ch) [] = [] := by
      rw [backoffNotes_self, hpc, hquiet]
      rfl
    split at hstep
    · cases hstep
      exact hmoves setListener_self hnotes (by rw [hpc]; rfl) rfl
    · cases hstep
      refine hmoves setListener_self hnotes (by rw [hpc]; rfl) ?_
      split <;> rfl
  case h_4 ec hpc =>
    have hplayed := (plays_of_plain (by rw [hpc]; rfl)).mp h.plays
    split at hstep
    · next hstop =>
      cases hstep
      refine hmoves setListener_self ?_ (by rw [hpc]; rfl) rfl
      rw [backoffNotes_self, hpc, hquiet]
      exact if_pos hstop
    · next hstop =>
      have hnotes (es : List Event) :
          s.backoffNotes l (.listener l ch) es = reports l es ++ [.outcome .failed] := by
        rw [backoffNotes_self, hpc]
        exact congrArg (reports l es ++ ·) (if_neg hstop)
      split at hstep
      · next hback =>
        -- the failure is reported, and the report noted
        have hreports : reportsAt (s.listeners l).backoff = true := decide_eq_true hback
        have hnoted : reports l [.acceptError l ec] = [.reported] := by simp [reports]
        cases hstep
        rw [hnotes, hnoted, Server.setListenerPc, setListener_self]
        exact ⟨h.bounds, log, hplayed, hreports, rfl⟩
      · next hback =>
        have hreports : reportsAt (s.listeners l).backoff = false := decide_eq_false hback
        cases hstep
        rw [hnotes, hquiet, Server.setListenerPc, setListener_self]
        refine ⟨h.bounds, log, hplayed, ?_⟩
        rw [told, hreports]
        rfl
  case h_5 hpc =>
    have hplays := h.plays
    rw [Listener.Plays, hpc] at hplays
    obtain ⟨old, hold, hreports, rfl⟩ := hplays
    cases hstep
    rw [backoffNotes_self, hpc, Server.setListenerPc, setListener_self]
    refine ⟨h.bounds, old, hold, ?_⟩
    rw [told, hreports]
    rfl
  case h_6 hpc =>
    have hplays := h.plays
    rw [Listener.Plays, hpc] at hplays
    obtain ⟨old, hold, rfl⟩ := hplays
    cases hstep
    rw [backoffNotes_self, hpc, Server.setListenerPc, setListener_self]
    exact ⟨h.bounds, hold.failed⟩
  case h_7 hpc | h_8 hpc =>
    cases hstep
    refine hmoves setListener_self (by rw [backoffNotes_self, hpc, hquiet]; rfl) (by rw [hpc]; rfl) ?_
    split <;> rfl
  case h_9 hpc =>
    split at hstep <;> cases hstep <;>
      exact hmoves setListener_self (by rw [backoffNotes_self, hpc, hquiet]; rfl) (by rw [hpc]; rfl) rfl
  case h_10 i hpc =>
    split at hstep
    · cases hstep
      exact hmoves setListener_self (by rw [backoffNotes_self, hpc, hquiet]; rfl) (by rw [hpc]; rfl) rfl
    · cases hstep
  case h_11 ec hpc =>
    cases hstep
    exact hmoves setListener_self (by rw [backoffNotes_self, hpc, hquiet]; rfl) (by rw [hpc]; rfl) rfl
  case h_12 hpc | h_14 hpc =>
    cases hstep
    exact hmoves setListener_self (by rw [backoffNotes_self, hpc, hquiet]; rfl) (by rw [hpc]; rfl) rfl
  case h_13 hpc =>
    split at hstep
    · cases hstep
      exact hmoves setListener_self (by rw [backoffNotes_self, hpc, hquiet]; rfl) (by rw [hpc]; rfl) rfl
    · cases hstep
  case h_15 => cases hstep

/-- A handler resumes the listener. -/
theorem BackoffInv.resume {ch : TcpSession.Choice} (h : BackoffInv (s.listeners l) log)
    (hstep : runListener s l = some (s', es)) :
    BackoffInv (s'.listeners l) (s.backoffNotes l (.listener l ch) es ++ log) := by
  have hplays := h.plays
  unfold runListener at hstep
  simp only at hstep
  split at hstep
  case h_1 hpc | h_2 r hpc =>
    cases hstep
    rw [backoffNotes_self, hpc, Server.setListenerPc, setListener_self]
    rw [Listener.Plays, hpc] at hplays
    exact ⟨h.bounds, hplays⟩
  case h_3 hpc =>
    cases hstep
    rw [backoffNotes_self, hpc, setListener_self]
    rw [Listener.Plays, hpc] at hplays
    exact ⟨hplays.bounds, hplays⟩
  case h_4 => cases hstep

/-- The others report nothing in the listener's place. -/
theorem reports_others (hm : Move o s a es s') (hother : ∀ ch, a ≠ .listener l ch) :
    reports l es = [] := by
  cases hm with
  | listenerReports j ec hlive hpc hstop hback ha =>
    obtain ⟨ch, rfl⟩ := ha
    have hjl : j ≠ l := by
      rintro rfl
      exact hother ch rfl
    simp [reports, hjl]
  | session i b sess es ha hi hallow hstep => simp [reports]
  | _ => rfl

/-- The steps of the others, and those of its acceptor and its timer. -/
theorem BackoffInv.others (h : BackoffInv (s.listeners l) log) (hn : NumberInv s)
    (hm : Move o s a es s') (hother : ∀ ch, a ≠ .listener l ch) :
    BackoffInv (s'.listeners l) log := by
  have hupdate {j : ℕ} {L : Listener} (hlisteners : s'.listeners = Function.update s.listeners j L)
      (hL : j = l → BackoffInv L log) : BackoffInv (s'.listeners l) log := by
    rw [hlisteners]
    by_cases hjl : j = l
    · subst hjl
      rw [Function.update_self]
      exact hL rfl
    · rw [Function.update_of_ne (Ne.symm hjl)]
      exact h
  have hthis {j : ℕ} {L : Listener} (ha : ∃ ch, a = .listener j ch)
      (hlisteners : s'.listeners = Function.update s.listeners j L) :
      BackoffInv (s'.listeners l) log := by
    obtain ⟨ch, rfl⟩ := ha
    refine hupdate hlisteners ?_
    rintro rfl
    exact absurd rfl (hother ch)
  cases hm with
  | startSpawns t hpc =>
    simp only [Server.setCaller]
    split
    · next hl =>
      refine h.same rfl fun hplays => ?_
      rw [Listener.Plays, hn.spawning t hpc l hl] at hplays
      exact hplays
    · exact h
  | startBinds t eps hpc hlen | stopperPosts k hpc hlive ha | stopperCloses k hpc hdead ha =>
    simp only [Server.setCaller, Server.setStopper]
    split
    · exact h.same rfl id
    · exact h
  | listenerAdvance j pc hlive hpc ha => exact hthis ha rfl
  | listenerReports j ec hlive hpc hstop hback ha => exact hthis ha rfl
  | listenerAccepts j hlive hpc ha => exact hthis ha rfl
  | listenerDrops j hlive hpc ha => exact hthis ha rfl
  | listenerCreates j hlive hpc ha => exact hthis ha rfl
  | listenerStarted j i hlive hpc hret ha => exact hthis ha rfl
  | listenerRecords j ec hlive hpc ha => exact hthis ha rfl
  | listenerStops j hlive hpc ha => exact hthis ha rfl
  | listenerStopped j hlive hpc hret ha => exact hthis ha rfl
  | listenerEnds j hlive hpc ha => exact hthis ha rfl
  | listenerResumes j L hlive hres ha => exact hthis ha rfl
  -- the waits of the listener itself end: its back-off stays
  | acceptDone j r hlive hpc hr ha =>
    refine hupdate rfl ?_
    rintro rfl
    refine h.same rfl fun hplays => ?_
    rw [Listener.Plays, hpc] at hplays
    exact hplays
  | timerDone j hlive hpc =>
    refine hupdate rfl ?_
    rintro rfl
    refine h.same rfl fun hplays => ?_
    rw [Listener.Plays, hpc] at hplays
    exact hplays
  | runClose j hlive hposted hpc =>
    refine hupdate rfl ?_
    rintro rfl
    refine h.same rfl fun hplays => ?_
    unfold Listener.Plays closeAcceptor at *
    cases hpc' : (s.listeners j).pc <;> rw [hpc'] at hplays <;> exact hplays
  | _ => exact h

/-- **A step of the server** keeps what the observer knows of the listener. -/
theorem BackoffInv.step (h : BackoffInv (s.listeners l) log) (hn : NumberInv s)
    (hstep : (system o).step s a = some (s', es)) :
    BackoffInv (s'.listeners l) (s.backoffNotes l a es ++ log) := by
  have hothers (hother : ∀ ch, a ≠ .listener l ch) (hnotes : s.attempt l a = []) :
      BackoffInv (s'.listeners l) (s.backoffNotes l a es ++ log) := by
    have hm := step_move hstep
    rw [Server.backoffNotes, reports_others hm hother, hnotes]
    exact h.others hn hm hother
  cases a with
  | listener j ch =>
    by_cases hjl : j = l
    · subst hjl
      have hthis : TcpServer.step o s (.listener j ch) = some (s', es) := hstep
      rw [TcpServer.step] at hthis
      split at hthis
      · split at hthis
        · exact h.listener hthis
        · cases hthis
      · split at hthis
        · exact h.resume hthis
        · cases hthis
    · refine hothers (fun ch' heq => ?_) (if_neg hjl)
      cases heq
      exact hjl rfl
  | _ => exact hothers (by simp) rfl

end Step

/-- Reports are rare if and only if the streaks are spaced, also in the middle of a failure. -/
theorem BackoffInv.rarely {L : Listener} {log : List BackoffNote} (h : BackoffInv L log) :
    ReportsRarely log ↔ Spaced (outcomes log) := by
  have hfailed {backoff : ℕ} {old : List BackoffNote} (hold : Played backoff old) :
      ReportsRarely (told backoff ++ .outcome .failed :: old) ↔
        Spaced (outcomes (told backoff ++ .outcome .failed :: old)) := by
    exact rarely_waited.symm.trans hold.failed.streakInv.rarely
  have hplays := h.plays
  cases hpc : L.pc with
  | reporting =>
    rw [Listener.Plays, hpc] at hplays
    obtain ⟨old, hold, hreports, rfl⟩ := hplays
    have htold : told L.backoff = [.reported] := if_pos hreports
    have hrarely := hfailed hold
    rwa [htold] at hrarely
  | armTimer =>
    rw [Listener.Plays, hpc] at hplays
    obtain ⟨old, hold, rfl⟩ := hplays
    exact hfailed hold
  | backingOff | timerDone =>
    rw [Listener.Plays, hpc] at hplays
    exact hplays.streakInv.rarely
  | _ => exact ((plays_of_plain (by rw [hpc]; rfl)).mp hplays).streakInv.rarely

section Runs

variable {o : TcpSession.Options} {tr : List Event} {s : Server} {l : ℕ} {log : List BackoffNote}

theorem backoffInv (h : (backoffSystem o l).Reachable tr (s, log)) :
    BackoffInv (s.listeners l) log := by
  refine Run.invariant (I := fun _ p => BackoffInv (p.1.listeners l) p.2) .start ?_ h
  intro tr p a p' es hrun _ hst ih
  obtain ⟨hstep, hnote⟩ := recorded_step.mp hst
  have hserver : (system o).Reachable tr p.1 := Run.unrecorded (C := anyStep) hrun
  rw [hnote]
  exact ih.step (numberInv hserver) hstep

/-- **The rate of `OnAcceptError`.**  The back-off of a listener stays within its bounds; and at most
two reports fall into any stretch of less than 500 ms of waiting if and only if the streaks of
failures it has met are spaced. -/
theorem reports_rarely_iff (h : (backoffSystem o l).Reachable tr (s, log)) :
    (acceptRetryMin ≤ (s.listeners l).backoff ∧ (s.listeners l).backoff ≤ acceptRetryMax) ∧
      (ReportsRarely log ↔ Spaced (outcomes log)) :=
  ⟨(backoffInv h).bounds, (backoffInv h).rarely⟩

end Runs

section Sample

/-- An accept of listener 0 fails transiently, and is reported; it waits for 1 ms. -/
def failureRun : List Action :=
  .acceptDone 0 (some .connectionAborted) :: List.replicate 5 (.listener 0 .ok)

/-- The timer expires, and the next accept succeeds; `ShouldAccept` rejects the connection. -/
def successRun : List Action := List.flatten
  [.timerDone 0 :: List.replicate 2 (.listener 0 .ok),
   .acceptDone 0 none :: List.replicate 3 (.listener 0 .ok),
   .listener 0 .fail :: [.listener 0 .ok]]

/-- `start()` on one endpoint, whose listener waits in its first `async_accept`. -/
def listenRun : List Action := List.flatten
  [.callStart 0 [⟨"::1", 80⟩] :: List.replicate 6 (.caller (.user 0) .ok),
   .caller (.user 0) (.bound [⟨"::1", 80⟩]) :: List.replicate 5 (.caller (.user 0) .ok),
   List.replicate 2 (.listener 0 .ok)]

/-- Two failures in a row. -/
theorem reports_rarely_iff_twice : ∃ tr s log, (backoffSystem {} 0).Reachable tr (s, log) ∧
    outcomes log = [.failed, .failed] ∧ (s.listeners 0).backoff ≤ acceptRetryMax ∧
    (ReportsRarely log ↔ Spaced [.failed, .failed]) := by
  have hexec : ((backoffSystem {} 0).exec (List.flatten [listenRun, failureRun,
      .timerDone 0 :: List.replicate 2 (.listener 0 .ok), failureRun.dropLast])).map
      (fun r => outcomes r.1.2) = some [.failed, .failed] := by decide +kernel
  obtain ⟨⟨⟨s, log⟩, tr⟩, hr, hlog⟩ := Option.map_eq_some_iff.mp hexec
  have hrun : (backoffSystem {} 0).Reachable tr (s, log) :=
    runFrom_of_execFrom (execMeets_anyStep _ _) hr
  obtain ⟨hbounds, hiff⟩ := reports_rarely_iff hrun
  rw [show outcomes log = [.failed, .failed] from hlog] at hiff
  exact ⟨tr, s, log, hrun, hlog, hbounds.2, hiff⟩

/-- Failures that alternate with successes are all reported: three within 2 ms of waiting. -/
theorem reports_often : ∃ tr s log, (backoffSystem {} 0).Reachable tr (s, log) ∧
    outcomes log = [.failed, .accepted, .failed, .accepted, .failed] ∧ ¬ReportsRarely log := by
  have hexec : ((backoffSystem {} 0).exec (List.flatten
      [listenRun, failureRun, successRun, failureRun, successRun, failureRun])).map
      (fun r => r.1.2) = some [.waited 1, .reported, .outcome .failed, .outcome .accepted, .waited 1,
        .reported, .outcome .failed, .outcome .accepted, .waited 1, .reported,
        .outcome .failed] := by decide +kernel
  obtain ⟨⟨⟨s, log⟩, tr⟩, hr, hlog⟩ := Option.map_eq_some_iff.mp hexec
  have hrun : (backoffSystem {} 0).Reachable tr (s, log) :=
    runFrom_of_execFrom (execMeets_anyStep _ _) hr
  obtain rfl : log = _ := hlog
  refine ⟨tr, s, _, hrun, rfl, fun hrarely => ?_⟩
  have hmany := hrarely _ (List.infix_refl _) (by decide)
  exact absurd hmany (by decide)

end Sample

end TcpServer
