/-
# The mutexes of the background timer

What each thread holds of the four mutexes is read off where it is (`State.held`).  `LockInv` says
that the mutexes record just that, and that a call takes no mutex that its thread holds already.

One timer thread is live at most, and `m_thread` owns it (`ThreadInv`), so a call of the timer thread
that waits for the thread of the timer waits for itself and is refused.
-/
import Libsg.BackgroundTimer

open TransitionSystem SharedMutex

namespace BackgroundTimer

/-! ## What the threads hold -/

def Place.holding : Place → Bool
  | .lock => false
  | .body | .unlock _ => true

/-- What is held of the mutex `m` at a place of the section `k`. -/
def Place.held (k : Section) (p : Place) (m : Mutex) : Option Mode :=
  if p.holding = true ∧ k.mutex = m then some k.mode else none

def Outcome.held (k : Section) (m : Mutex) : Outcome → Option Mode
  | .at p => p.held k m
  | .returned _ => none

def CallPc.held (m : Mutex) : CallPc → Option Mode
  | .within f p => p.held f.section m
  | _ => none

/-- The lock of the loop is held. -/
def ThreadPc.inLoop : ThreadPc → Bool
  | .choose | .task _ | .sleeping _ | .unlockSleeper _ | .within .setException _ => true
  | _ => false

def ThreadPc.loopHeld (pc : ThreadPc) (m : Mutex) : Option Mode :=
  if pc.inLoop = true ∧ m = .sleeper then some .shared else none

def ThreadPc.sectionHeld (m : Mutex) : ThreadPc → Option Mode
  | .within f p => p.held f.section m
  | _ => none

def ThreadPc.held (m : Mutex) (pc : ThreadPc) : Option Mode :=
  (pc.sectionHeld m).or (pc.loopHeld m)

/-- What a thread holds outside the calls it makes. -/
def State.outer (s : State) (m : Mutex) : Tid → Option Mode
  | .user _ => none
  | .timer w => (s.threads w).held m

def State.held (s : State) (m : Mutex) (t : Tid) : Option Mode :=
  ((s.callers t).held m).or (s.outer m t)

/-- The mutexes are held as the threads say, and no call holds what its thread holds besides. -/
structure LockInv (s : State) : Prop where
  locks : ∀ m, (s.shared.locks m).Grants (s.held m)
  apart : ∀ w m, (s.threads w).held m = none ∨ (s.callers (.timer w)).held m = none

section Sections

variable {t : Tid} {ok : Bool} {k : Section} {shared shared' : Shared} {p : Place}
  {outcome : Outcome} {m : Mutex}

theorem Shared.setLock_self (shared : Shared) (m : Mutex) (l : SharedMutex Tid) :
    (shared.setLock m l).locks m = l :=
  Function.update_self ..

theorem Shared.setLock_of_ne (shared : Shared) {m x : Mutex} (l : SharedMutex Tid) (hx : x ≠ m) :
    (shared.setLock m l).locks x = shared.locks x :=
  Function.update_of_ne hx ..

theorem Place.held_eq (hp : p.holding = true) : p.held k k.mutex = some k.mode :=
  if_pos ⟨hp, rfl⟩

theorem Place.held_of_ne (p : Place) (h : k.mutex ≠ m) : p.held k m = none :=
  if_neg fun hheld => h hheld.2

theorem Place.held_lock (k : Section) (m : Mutex) : Place.lock.held k m = none :=
  if_neg fun hheld => Bool.false_ne_true hheld.1

/-- **What a step of a section does** to each mutex. -/
theorem Section.step_transfer (h : k.step t ok shared p = some (outcome, shared')) (m : Mutex) :
    Transfer t (shared.locks m) (p.held k m) (shared'.locks m) (outcome.held k m) := by
  by_cases hm : k.mutex = m
  · subst hm
    cases p with
    | lock =>
      obtain ⟨l, hl, heq⟩ := Option.map_eq_some_iff.mp h
      cases heq
      rw [Shared.setLock_self]
      show Transfer t _ _ l ((Place.body).held k k.mutex)
      rw [Place.held_lock, Place.held_eq rfl]
      exact .acquire k.mode l hl
    | body =>
      cases h
      exact .keep
    | unlock result =>
      cases h
      rw [Shared.setLock_self, Place.held_eq rfl]
      exact .release k.mode rfl
  · have hheld (p : Place) : p.held k m = none := p.held_of_ne hm
    have hnone : outcome.held k m = none := by
      cases outcome with
      | «at» p => exact hheld p
      | returned result => rfl
    have hsame : shared'.locks m = shared.locks m := by
      cases p with
      | lock =>
        obtain ⟨l, -, heq⟩ := Option.map_eq_some_iff.mp h
        cases heq
        exact Shared.setLock_of_ne _ _ (Ne.symm hm)
      | body =>
        cases h
        rfl
      | unlock result =>
        cases h
        exact Shared.setLock_of_ne _ _ (Ne.symm hm)
    rw [hheld, hnone, hsame]
    exact .keep

theorem CallSection.resume_held (f : CallSection) (outcome : Outcome) (m : Mutex) :
    (f.resume outcome).held m = outcome.held f.section m := by
  cases outcome with
  | «at» p => rfl
  | returned result =>
    cases f with
    | own k => rfl
    | startIsRunning =>
      show (if result = .flag true then CallPc.idle else .join true).held m = none
      split <;> rfl
    | startException => exact Place.held_lock _ m
    | startRunning => rfl

theorem ThreadSection.resume_held (cbs : Callbacks) (f : ThreadSection) (outcome : Outcome)
    (m : Mutex) :
    (f.resume cbs outcome).held m =
      (outcome.held f.section m).or ((ThreadPc.within f .lock).loopHeld m) := by
  cases outcome with
  | «at» p => cases f <;> rfl
  | returned result =>
    have hlock (f : ThreadSection) : (ThreadPc.within f .lock).sectionHeld m = none :=
      Place.held_lock _ m
    cases f with
    | isStopRequested =>
      show (if result = .flag true then ThreadPc.within .setIsRunning .lock else .lockSleeper).held m
        = none
      split
      · rw [ThreadPc.held, hlock]
        rfl
      · rfl
    | setException => rfl
    | setIsRunning =>
      show (if cbs.stopped then ThreadPc.within .getException .lock else .over).held m = none
      split
      · rw [ThreadPc.held, hlock]
        rfl
      · rfl
    | getException => rfl

end Sections

/-! ## Which timer threads there are -/

def ThreadPc.live : ThreadPc → Bool
  | .unborn | .over => false
  | _ => true

/-- The places of a call before `start()` has waited for the thread before. -/
def CallPc.early : CallPc → Bool
  | .idle | .within (.own _) _ | .within .startIsRunning _ | .join _ => true
  | _ => false

/-- A timer thread makes calls where code of the user runs, and none gets past waiting for itself;
`m_thread` owns the one that is live. -/
structure ThreadInv (s : State) : Prop where
  inside : ∀ w, s.callers (.timer w) ≠ .idle → (s.threads w).inCallback = true
  joinable : ∀ w, (s.threads w).live = true → s.thread = some w
  unborn : ∀ w, s.threadCount ≤ w → s.threads w = .unborn
  early : ∀ w, (s.callers (.timer w)).early = true

theorem ThreadPc.live_of_inCallback {pc : ThreadPc} (h : pc.inCallback = true) : pc.live = true := by
  cases pc <;> first | rfl | cases h

theorem ThreadPc.Advance.live {cbs : Callbacks} {d : Data} {pc pc' : ThreadPc}
    (h : pc.Advance cbs d pc') : pc.live = true := by
  cases h <;> rfl

theorem CallSection.resume_early {f : CallSection} {p : Place}
    (h : (CallPc.within f p).early = true) (outcome : Outcome) :
    (f.resume outcome).early = true := by
  cases f with
  | own k => cases outcome <;> rfl
  | startIsRunning =>
    cases outcome with
    | «at» p => rfl
    | returned result =>
      show (if result = .flag true then CallPc.idle else .join true).early = true
      split <;> rfl
  | startException => cases h
  | startRunning => cases h

namespace ThreadInv

variable {cbs : Callbacks} {s s' : State} {a : Action} {es : List Event}

theorem idle (h : ThreadInv s) {w : ℕ} (hpc : (s.threads w).inCallback = false) :
    s.callers (.timer w) = .idle := by
  by_contra hcall
  rw [h.inside w hcall] at hpc
  cases hpc

/-- A call of the thread `t` begins, moves on or returns. -/
theorem caller (h : ThreadInv s) {t : Tid} {pc : CallPc}
    (hcallers : s'.callers = Function.update s.callers t pc) (hthreads : s'.threads = s.threads)
    (hthread : s'.thread = s.thread) (hcount : s'.threadCount = s.threadCount)
    (hpc : ∀ w, t = .timer w → pc.early = true ∧
      (pc ≠ .idle → (s.threads w).inCallback = true)) : ThreadInv s' := by
  refine ⟨fun w hw => ?_, ?_, ?_, fun w => ?_⟩
  · rw [hthreads]
    rw [hcallers] at hw
    by_cases ht : .timer w = t
    · rw [ht, Function.update_self] at hw
      exact (hpc w ht.symm).2 hw
    · rw [Function.update_of_ne ht] at hw
      exact h.inside w hw
  · rw [hthreads, hthread]
    exact h.joinable
  · rw [hthreads, hcount]
    exact h.unborn
  · rw [hcallers]
    by_cases ht : .timer w = t
    · rw [ht, Function.update_self]
      exact (hpc w ht.symm).1
    · rw [Function.update_of_ne ht]
      exact h.early w

/-- A timer thread moves on. -/
theorem thread (h : ThreadInv s) {w : ℕ} {pc : ThreadPc}
    (hthreads : s'.threads = Function.update s.threads w pc) (hcallers : s'.callers = s.callers)
    (hthread : s'.thread = s.thread) (hcount : s'.threadCount = s.threadCount)
    (hlive : (s.threads w).live = true) (hidle : s.callers (.timer w) = .idle) : ThreadInv s' := by
  refine ⟨fun v hv => ?_, fun v hv => ?_, fun v hv => ?_, ?_⟩
  · rw [hcallers] at hv
    rw [hthreads]
    by_cases hvw : v = w
    · rw [hvw] at hv
      exact absurd hidle hv
    · rw [Function.update_of_ne hvw]
      exact h.inside v hv
  · rw [hthread]
    by_cases hvw : v = w
    · rw [hvw]
      exact h.joinable w hlive
    · rw [hthreads, Function.update_of_ne hvw] at hv
      exact h.joinable v hv
  · rw [hcount] at hv
    have hvw : v ≠ w := by
      rintro rfl
      rw [h.unborn v hv] at hlive
      cases hlive
    rw [hthreads, Function.update_of_ne hvw]
    exact h.unborn v hv
  · rw [hcallers]
    exact h.early

/-- A thread in a call that only others make. -/
theorem not_timer (h : ThreadInv s) {t : Tid} (hpc : (s.callers t).early = false) (w : ℕ) :
    t ≠ .timer w := by
  rintro rfl
  rw [h.early w] at hpc
  cases hpc

/-- A live timer thread that waits for the thread of the timer waits for itself. -/
theorem own (h : ThreadInv s) {w : ℕ} {starting : Bool}
    (hpc : s.callers (.timer w) = .join starting) : s.thread = some w := by
  refine h.joinable w (ThreadPc.live_of_inCallback (h.inside w ?_))
  rw [hpc]
  nofun

theorem step (h : ThreadInv s) (hm : Move cbs s a es s') : ThreadInv s' := by
  cases hm with
  | calls t c hidle hmay =>
    refine h.caller (t := t) rfl rfl rfl rfl fun w hw => ⟨by cases c <;> rfl, fun _ => ?_⟩
    subst hw
    exact hmay
  | within t ok f p outcome shared hpc hstep =>
    refine h.caller (t := t) rfl rfl rfl rfl fun w hw => ⟨?_, fun _ => h.inside w ?_⟩
    · subst hw
      exact CallSection.resume_early (hpc ▸ h.early w) outcome
    · rw [← hw, hpc]
      nofun
  | passes t ok starting hpc hthread =>
    refine h.caller (t := t) rfl rfl rfl rfl fun w hw => ?_
    subst hw
    rw [h.own hpc] at hthread
    cases hthread
  | refused w ok starting hpc hthread =>
    exact h.caller (t := .timer w) rfl rfl rfl rfl fun v _ => ⟨rfl, fun hne => absurd rfl hne⟩
  | joins t ok starting w hpc hthread hother hover =>
    have hnone (v : ℕ) (hv : (s.threads v).live = true) : False := by
      have hown := h.joinable v hv
      rw [hthread, Option.some.injEq] at hown
      rw [← hown, hover] at hv
      cases hv
    have htimer (v : ℕ) : t ≠ .timer v := by
      rintro rfl
      rw [h.own hpc, Option.some.injEq] at hthread
      exact hother (by rw [hthread])
    have hkept (v : ℕ) : (Function.update s.callers t (.joined starting)) (.timer v)
        = s.callers (.timer v) := Function.update_of_ne (htimer v).symm ..
    refine ⟨fun v hv => h.inside v ?_, fun v hv => (hnone v hv).elim, h.unborn, fun v => ?_⟩
    · rw [← hkept]
      exact hv
    · exact (congrArg CallPc.early (hkept v)).trans (h.early v)
  | resets t ok hpc =>
    exact h.caller (t := t) rfl rfl rfl rfl fun w hw =>
      absurd hw (h.not_timer (by rw [hpc]; rfl) w)
  | creates t hpc hthread =>
    have htimer := h.not_timer (t := t) (by rw [hpc]; rfl)
    have hdead (v : ℕ) : (s.threads v).live ≠ true := by
      intro hv
      rw [h.joinable v hv] at hthread
      cases hthread
    have hcall (v : ℕ) : s.callers (.timer v) = .idle := by
      by_contra hne
      exact hdead v (ThreadPc.live_of_inCallback (h.inside v hne))
    have hkept (v : ℕ) : (Function.update s.callers t .idle) (.timer v) = .idle := by
      rw [Function.update_of_ne (htimer v).symm]
      exact hcall v
    refine ⟨fun v hv => absurd (hkept v) hv, fun v hv => ?_, fun v hv => ?_, fun v => ?_⟩
    · change (Function.update s.threads s.threadCount .spawned v).live = true at hv
      show some s.threadCount = some v
      by_cases hvw : v = s.threadCount
      · rw [hvw]
      · rw [Function.update_of_ne hvw] at hv
        exact absurd hv (hdead v)
    · change s.threadCount + 1 ≤ v at hv
      show Function.update s.threads s.threadCount .spawned v = .unborn
      rw [Function.update_of_ne (by omega)]
      exact h.unborn v (by omega)
    · exact (congrArg CallPc.early (hkept v)).trans rfl
  | fails t hpc =>
    exact h.caller (t := t) rfl rfl rfl rfl fun w _ => ⟨rfl, fun hne => absurd rfl hne⟩
  | terminates t ok hpc => exact ⟨h.inside, h.joinable, h.unborn, h.early⟩
  | advances w ok pc hpc hidle =>
    refine h.thread (w := w) rfl rfl rfl rfl hpc.live ?_
    by_cases hin : (s.threads w).inCallback = true
    · exact hidle hin
    · exact h.idle (Bool.eq_false_iff.mpr hin)
  | acts w ok f p outcome shared hpc hstep =>
    exact h.thread (w := w) rfl rfl rfl rfl (by rw [hpc]; rfl) (h.idle (by rw [hpc]; rfl))
  | locks w ok l hpc hlock =>
    exact h.thread (w := w) rfl rfl rfl rfl (by rw [hpc]; rfl) (h.idle (by rw [hpc]; rfl))
  | unlocks w ok again l hpc hl =>
    exact h.thread (w := w) rfl rfl rfl rfl (by rw [hpc]; rfl) (h.idle (by rw [hpc]; rfl))

end ThreadInv

/-! ## The mutexes record what the threads hold -/

namespace LockInv

variable {cbs : Callbacks} {s s' : State} {a : Action} {es : List Event}

/-- A call of the thread `t` moves on. -/
theorem caller (h : LockInv s) {t : Tid} {pc : CallPc}
    (hcallers : s'.callers = Function.update s.callers t pc) (hthreads : s'.threads = s.threads)
    (hstep : ∀ m, Transfer t (s.shared.locks m) ((s.callers t).held m) (s'.shared.locks m)
      (pc.held m)) : LockInv s' := by
  have houter (m : Mutex) (u : Tid) : s'.outer m u = s.outer m u := by
    cases u with
    | user n => rfl
    | timer w => exact congrArg (ThreadPc.held m) (congrFun hthreads w)
  have hself : s'.callers t = pc := by
    rw [hcallers, Function.update_self]
  have hothers (u : Tid) (hu : u ≠ t) : s'.callers u = s.callers u := by
    rw [hcallers, Function.update_of_ne hu]
  have hmove (m : Mutex) : Transfer t (s.shared.locks m) (s.held m t) (s'.shared.locks m)
      (s'.held m t) ∧ (s.outer m t = none ∨ pc.held m = none) := by
    have hor := (h.locks m).transfer_or (t := t) rfl (e := s.outer m t) (by
      cases t with
      | user n => exact .inl rfl
      | timer w => exact h.apart w m) (hstep m)
    refine ⟨?_, hor.2⟩
    rw [State.held, State.held, hself, houter]
    exact hor.1
  refine ⟨fun m => (h.locks m).transfer (hmove m).1 fun u hu => ?_, fun w m => ?_⟩
  · rw [State.held, State.held, hothers u hu, houter]
  · rw [hthreads]
    by_cases ht : .timer w = t
    · subst ht
      rw [hself]
      exact (hmove m).2
    · rw [hothers _ ht]
      exact h.apart w m

/-- A timer thread moves on that makes no call. -/
theorem thread (h : LockInv s) {w : ℕ} {pc : ThreadPc}
    (hthreads : s'.threads = Function.update s.threads w pc) (hcallers : s'.callers = s.callers)
    (hidle : s.callers (.timer w) = .idle)
    (hstep : ∀ m, Transfer (.timer w) (s.shared.locks m) ((s.threads w).held m)
      (s'.shared.locks m) (pc.held m)) : LockInv s' := by
  have hself (s : State) (hs : s.callers (.timer w) = .idle) (m : Mutex) :
      s.held m (.timer w) = (s.threads w).held m := by
    rw [State.held, hs]
    rfl
  refine ⟨fun m => (h.locks m).transfer (t := .timer w) ?_ fun u hu => ?_, fun v m => ?_⟩
  · rw [hself s hidle, hself s' (by rw [hcallers]; exact hidle), hthreads, Function.update_self]
    exact hstep m
  · have houter : s'.outer m u = s.outer m u := by
      cases u with
      | user n => rfl
      | timer v =>
        show (s'.threads v).held m = _
        rw [hthreads, Function.update_of_ne fun hv => hu (congrArg Tid.timer hv)]
        rfl
    rw [State.held, State.held, hcallers, houter]
  · rw [hcallers]
    by_cases hvw : v = w
    · subst hvw
      rw [hidle]
      exact .inr rfl
    · rw [hthreads, Function.update_of_ne hvw]
      exact h.apart v m

theorem advance_held {d : Data} {pc pc' : ThreadPc} (h : pc.Advance cbs d pc') (m : Mutex) :
    pc'.held m = pc.held m := by
  have hlock (f : ThreadSection) : (ThreadPc.within f .lock).sectionHeld m = none :=
    Place.held_lock _ m
  cases h with
  | spawned | invokes | returns | wakes | stopped => rfl
  | begins | started =>
    rw [ThreadPc.held, hlock]
    rfl
  | throws correct =>
    rw [ThreadPc.held, hlock]
    rfl

/-- A step outside the sections, on the lock of the loop. -/
theorem loop {w : ℕ} {pc pc' : ThreadPc} {l : SharedMutex Tid} (hpc : s.threads w = pc)
    (hsection : ∀ m, pc.sectionHeld m = none) (hsection' : ∀ m, pc'.sectionHeld m = none)
    (hstep : Transfer (.timer w) (s.shared.locks .sleeper) (pc.loopHeld .sleeper) l
      (pc'.loopHeld .sleeper)) (m : Mutex) :
    Transfer (.timer w) (s.shared.locks m) ((s.threads w).held m)
      ((s.shared.setLock .sleeper l).locks m) (pc'.held m) := by
  rw [hpc, ThreadPc.held, ThreadPc.held, hsection, hsection', Option.none_or, Option.none_or]
  by_cases hm : m = .sleeper
  · subst hm
    rw [Shared.setLock_self]
    exact hstep
  · have hnone (pc : ThreadPc) : pc.loopHeld m = none := if_neg fun hheld => hm hheld.2
    rw [Shared.setLock_of_ne _ _ hm, hnone, hnone]
    exact .keep

theorem step (h : LockInv s) (ht : ThreadInv s) (hm : Move cbs s a es s') : LockInv s' := by
  have hkeep {t : Tid} {pc : CallPc} (hold : ∀ m, (s.callers t).held m = none)
      (hnew : ∀ m, pc.held m = none) (m : Mutex) :
      Transfer t (s.shared.locks m) ((s.callers t).held m) (s.shared.locks m) (pc.held m) := by
    rw [hold, hnew]
    exact .keep
  have hjoined (starting : Bool) (m : Mutex) : (CallPc.joined starting).held m = none := by
    cases starting <;> rfl
  cases hm with
  | calls t c hidle hmay =>
    refine h.caller (t := t) rfl rfl (hkeep (fun m => by rw [hidle]; rfl) fun m => ?_)
    cases c <;> first | exact Place.held_lock _ m | rfl
  | within t ok f p outcome shared hpc hstep =>
    refine h.caller (t := t) rfl rfl fun m => ?_
    rw [hpc, CallSection.resume_held]
    exact Section.step_transfer hstep m
  | passes t ok starting hpc hthread =>
    exact h.caller (t := t) rfl rfl (hkeep (fun m => by rw [hpc]; rfl) (hjoined starting))
  | refused w ok starting hpc hthread =>
    exact h.caller (t := .timer w) rfl rfl (hkeep (fun m => by rw [hpc]; rfl) fun _ => rfl)
  | joins t ok starting w hpc hthread hother hover =>
    exact h.caller (t := t) rfl rfl (hkeep (fun m => by rw [hpc]; rfl) (hjoined starting))
  | resets t ok hpc =>
    exact h.caller (t := t) rfl rfl (hkeep (fun m => by rw [hpc]; rfl) fun m => Place.held_lock _ m)
  | creates t hpc hthread =>
    -- a thread that is new holds as little as one that is not there
    have hspawned : LockInv (s.setThread s.threadCount .spawned) := by
      have hunborn := ht.unborn s.threadCount (Nat.le_refl _)
      refine h.thread (w := s.threadCount) rfl rfl (ht.idle (by rw [hunborn]; rfl)) fun m => ?_
      rw [hunborn]
      exact .keep
    refine hspawned.caller (t := t) rfl rfl fun m => ?_
    show Transfer t (s.shared.locks m) ((s.callers t).held m) (s.shared.locks m) _
    exact hkeep (fun m => by rw [hpc]; rfl) (fun _ => rfl) m
  | fails t hpc =>
    exact h.caller (t := t) rfl rfl (hkeep (fun m => by rw [hpc]; rfl) fun _ => rfl)
  | terminates t ok hpc => exact ⟨h.locks, h.apart⟩
  | advances w ok pc hpc hidle =>
    have hcall : s.callers (.timer w) = .idle := by
      by_cases hin : (s.threads w).inCallback = true
      · exact hidle hin
      · exact ht.idle (Bool.eq_false_iff.mpr hin)
    refine h.thread (w := w) rfl rfl hcall fun m => ?_
    rw [advance_held hpc]
    exact .keep
  | acts w ok f p outcome shared hpc hstep =>
    have hcall := ht.idle (w := w) (by rw [hpc]; rfl)
    refine h.thread (w := w) rfl rfl hcall fun m => ?_
    have hloop : (ThreadPc.within f p).loopHeld m = (ThreadPc.within f .lock).loopHeld m := by
      cases f <;> rfl
    rw [hpc, ThreadSection.resume_held, ThreadPc.held, hloop]
    refine ((h.locks m).transfer_or ?_ ?_ (Section.step_transfer hstep m)).1
    · rw [State.held, hcall, ← hloop]
      show (s.threads w).held m = _
      rw [hpc]
      rfl
    · -- in the catch block it is the mutex of the exception that is taken
      by_cases hm : m = .sleeper
      · right
        refine Place.held_of_ne p ?_
        rw [hm]
        cases f <;> nofun
      · exact .inl (if_neg fun hheld => hm hheld.2)
  | locks w ok l hpc hlock =>
    refine h.thread (w := w) rfl rfl (ht.idle (by rw [hpc]; rfl))
      (loop hpc (fun _ => rfl) (fun _ => rfl) ?_)
    exact .acquire .shared l hlock
  | unlocks w ok again l hpc hl =>
    refine h.thread (w := w) rfl rfl (ht.idle (by rw [hpc]; rfl))
      (loop hpc (fun _ => rfl) (fun m => ?_) ?_)
    · cases again <;> exact Place.held_lock _ m
    · rw [hl]
      cases again <;> exact .release .shared rfl

end LockInv

theorem threadInv {cbs : Callbacks} {tr : List Event} {s : State}
    (h : (system cbs).Reachable tr s) : ThreadInv s := by
  refine Run.invariant (I := fun _ s => ThreadInv s) ?_ ?_ h
  · exact ⟨fun w hw => absurd rfl hw, nofun, fun _ _ => rfl, fun _ => rfl⟩
  · intro tr s a s' es _ _ hst hs
    exact hs.step (step_move hst).2

theorem lockInv {cbs : Callbacks} {tr : List Event} {s : State}
    (h : (system cbs).Reachable tr s) : LockInv s := by
  refine Run.invariant (I := fun _ s => LockInv s) ?_ ?_ h
  · refine ⟨fun m => ?_, fun w m => .inl rfl⟩
    have hnone : State.held (system cbs).start m = fun _ => none := by
      funext t
      cases t <;> rfl
    rw [hnone]
    exact Grants.nobody Tid
  · intro tr s a s' es hrun _ hst hs
    exact hs.step (threadInv hrun) (step_move hst).2

end BackgroundTimer
