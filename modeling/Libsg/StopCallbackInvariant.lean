/-
# What every run of the stop callbacks keeps

The calls are in one stack each and wait while they execute a callback (`stacks_move`),
one of them has the lock (`lock_move`), and for each callback the list, the call of
`__request_stop()` and the flag that it has finished agree with where its constructor and
its destructor are (`Placed`).
-/
import Libsg.Exclusive
import Libsg.StopCallbacks

open TransitionSystem

namespace StopToken

/-! ## Where the calls are -/

/-- The constructor or the destructor is running. -/
def Life.running : Life → Bool
  | .add | .inlined | .push | .added | .remove | .unlink | .removed | .await => true
  | .unborn | .registered | .detached | .destroyed => false

/-- It has the lock. -/
def Life.hasLock : Life → Bool
  | .push | .unlink => true
  | _ => false

/-- The callback has been added, and its destructor has not yet looked for it. -/
def Life.joined : Life → Bool
  | .added | .registered | .remove | .unlink => true
  | _ => false

/-- The destructor has not found the callback in the list. -/
def Life.leaving : Life → Bool
  | .removed | .await => true
  | _ => false

/-- Nothing has changed for the others. -/
def Life.SamePlace (l l' : Life) : Prop :=
  l.joined = l'.joined ∧ l.leaving = l'.leaving ∧ (l = .destroyed ↔ l' = .destroyed)

instance (l l' : Life) : Decidable (l.SamePlace l') :=
  inferInstanceAs (Decidable (_ ∧ _ ∧ _))

theorem Life.SamePlace.refl (l : Life) : l.SamePlace l := ⟨rfl, rfl, Iff.rfl⟩

section Signal

variable {Cb : Type*}

def Signal.active : Signal Cb → Bool
  | .idle | .returned => false
  | _ => true

def Signal.hasLock : Signal Cb → Bool
  | .signalled | .loop => true
  | _ => false

/-- It waits for a callback to return. -/
def Signal.waiting : Signal Cb → Bool
  | .executing _ _ => true
  | _ => false

/-- No callback has been looked for yet. -/
def Signal.early : Signal Cb → Bool
  | .idle | .signalled => true
  | _ => false

/-- It does not look for another callback. -/
def Signal.last : Signal Cb → Bool
  | .execute _ anyMore | .executing _ anyMore | .executed _ anyMore => !anyMore
  | .returned => true
  | _ => false

/-- It executes the callback, and its flag on the stack is there. -/
def Signal.during [DecidableEq Cb] (cb : Cb) : Signal Cb → Bool
  | .executing c _ | .executed c _ => c = cb
  | _ => false

/-- It has taken the callback out of the list, and has not done with it. -/
def Signal.about [DecidableEq Cb] (cb : Cb) : Signal Cb → Bool
  | .execute c _ | .executing c _ | .executed c _ => c = cb
  | _ => false

theorem Signal.about_of_during [DecidableEq Cb] {cb : Cb} {signal : Signal Cb}
    (h : signal.during cb = true) : signal.about cb = true := by
  cases signal <;> simp_all [during, about]

theorem Signal.during_unique [DecidableEq Cb] {cb c : Cb} {signal : Signal Cb}
    (h : signal.during cb = true) (hc : signal.during c = true) : cb = c := by
  cases signal <;> simp_all [during]

theorem Signal.not_during [DecidableEq Cb] {cb : Cb} {signal : Signal Cb}
    (h : signal.about cb = false) : signal.during cb = false := by
  rw [Bool.eq_false_iff]
  intro hd
  rw [about_of_during hd] at h
  cases h

def Frame.single : Frame Cb → Prop
  | .request => False
  | _ => True

end Signal

section Stacks

variable {Thread Cb Q : Type*}

def State.busy (s : State Thread Cb Q) : Frame Cb → Prop
  | .request => True
  | .signalling => s.signal.active = true
  | .life cb => (s.life cb).running = true

/-- The call executes a callback. -/
def State.waits (s : State Thread Cb Q) : Frame Cb → Prop
  | .request => False
  | .signalling => s.signal.waiting = true
  | .life cb => s.life cb = .inlined

/-- The calls of the threads. -/
def State.Stacks (s : State Thread Cb Q) : Prop :=
  CallStack.Inv s.frames Frame.single s.busy s.waits

namespace State.Stacks

variable [DecidableEq Cb] {s s' : State Thread Cb Q} {t : Thread} {rest : List (Frame Cb)} {cb : Cb}

omit [DecidableEq Cb] in
theorem waits_of_userCode (h : s.Stacks) (ht : s.userCode t = true) :
    ∀ f ∈ s.frames t, s.waits f := by
  intro f hf
  cases hframes : s.frames t with
  | nil => simp [hframes] at hf
  | cons g rest =>
    rw [hframes] at hf
    rcases List.mem_cons.mp hf with rfl | hf
    · rw [userCode, hframes] at ht
      cases f with
      | request => simp at ht
      | signalling =>
        cases hsig : s.signal <;> simp [hsig] at ht
        simp [waits, hsig, Signal.waiting]
      | life cb => simpa [waits] using ht
    · exact h.suspended t g rest f hframes hf

omit [DecidableEq Cb] in
/-- Neither the calls nor where they are have changed. -/
theorem unchanged (h : s.Stacks) (hframes : s'.frames = s.frames) (hsignal : s'.signal = s.signal)
    (hlife : s'.life = s.life) : s'.Stacks := by
  have hbusy : s'.busy = s.busy := by
    funext g
    cases g <;> simp [busy, hsignal, hlife]
  have hwaits : s'.waits = s.waits := by
    funext g
    cases g <;> simp [waits, hsignal, hlife]
  rw [State.Stacks, hframes, hbusy, hwaits]
  exact h

/-- A running constructor or destructor goes on. -/
theorem life_keep (h : s.Stacks) (ht : s.frames t = .life cb :: rest) {l : Life}
    (hl : l.running = true) (hframes : s'.frames = s.frames) (hsignal : s'.signal = s.signal)
    (hlife : s'.life = Function.update s.life cb l) : s'.Stacks := by
  have hrun : (s.life cb).running = true :=
    h.inProgress (.life cb) t (by rw [ht]; exact List.mem_cons_self)
  rw [State.Stacks, hframes]
  refine CallStack.Inv.keep h ht trivial (fun g => ?_) fun g hg hw => ?_
  · cases g with
    | request => exact Iff.rfl
    | signalling => rw [busy, busy, hsignal]
    | life c => by_cases hc : c = cb <;> simp [busy, hlife, hc, hl, hrun]
  · cases g with
    | request => exact hw
    | signalling => rwa [waits, hsignal]
    | life c =>
      have hc : c ≠ cb := by
        rintro rfl
        exact hg rfl
      rwa [waits, hlife, Function.update_of_ne hc]

/-- A constructor or a destructor is called. -/
theorem life_push [DecidableEq Thread] (h : s.Stacks) (ht : s.userCode t = true) {l : Life}
    (hidle : (s.life cb).running = false) (hl : l.running = true)
    (hframes : s'.frames = Function.update s.frames t (.life cb :: s.frames t))
    (hsignal : s'.signal = s.signal) (hlife : s'.life = Function.update s.life cb l) :
    s'.Stacks := by
  have hnew : ¬ s.busy (.life cb) := by simp [busy, hidle]
  rw [State.Stacks, hframes]
  refine CallStack.Inv.push h (fun hin => hnew (h.inProgress _ t hin)) (fun _ => hnew)
    (h.waits_of_userCode ht) (fun g => ?_) fun g hg hw => ?_
  · cases g with
    | request => simp [busy]
    | signalling => simp [busy, hsignal]
    | life c => by_cases hc : c = cb <;> simp [busy, hlife, hc, hl]
  · cases g with
    | request => exact hw
    | signalling => rwa [waits, hsignal]
    | life c =>
      have hc : c ≠ cb := by
        rintro rfl
        exact hg rfl trivial
      rwa [waits, hlife, Function.update_of_ne hc]

/-- A constructor or a destructor returns. -/
theorem life_pop [DecidableEq Thread] (h : s.Stacks) (ht : s.frames t = .life cb :: rest) {l : Life}
    (hl : l.running = false) (hframes : s'.frames = Function.update s.frames t rest)
    (hsignal : s'.signal = s.signal) (hlife : s'.life = Function.update s.life cb l) :
    s'.Stacks := by
  rw [State.Stacks, hframes]
  refine CallStack.Inv.pop h ht (fun g => ?_) fun g hg hw => ?_
  · cases g with
    | request => simp [busy]
    | signalling => simp [busy, hsignal]
    | life c => by_cases hc : c = cb <;> simp [busy, hlife, hc, hl, Frame.single]
  · cases g with
    | request => exact hw
    | signalling => rwa [waits, hsignal]
    | life c =>
      have hc : c ≠ cb := by
        rintro rfl
        exact hg rfl trivial
      rwa [waits, hlife, Function.update_of_ne hc]

/-- The life of a callback changes while none of its calls runs. -/
theorem life_idle (h : s.Stacks) {l : Life} (hidle : (s.life cb).running = false)
    (hl : l.running = false) (hframes : s'.frames = s.frames) (hsignal : s'.signal = s.signal)
    (hlife : s'.life = Function.update s.life cb l) : s'.Stacks := by
  rw [State.Stacks, hframes]
  refine CallStack.Inv.same h (fun g => ?_) fun g hw => ?_
  · cases g with
    | request => exact Iff.rfl
    | signalling => rw [busy, busy, hsignal]
    | life c => by_cases hc : c = cb <;> simp [busy, hlife, hc, hl, hidle]
  · cases g with
    | request => exact hw
    | signalling => rwa [waits, hsignal]
    | life c =>
      have hc : c ≠ cb := by
        rintro rfl
        rw [waits] at hw
        rw [hw] at hidle
        cases hidle
      rwa [waits, hlife, Function.update_of_ne hc]

omit [DecidableEq Cb] in
/-- The call of `__request_stop()` goes on. -/
theorem signal_keep (h : s.Stacks) (ht : s.frames t = .signalling :: rest)
    (hactive : s'.signal.active = true) (hframes : s'.frames = s.frames)
    (hlife : s'.life = s.life) : s'.Stacks := by
  have hrun : s.signal.active = true :=
    h.inProgress .signalling t (by rw [ht]; exact List.mem_cons_self)
  rw [State.Stacks, hframes]
  refine CallStack.Inv.keep h ht trivial (fun g => ?_) fun g hg hw => ?_
  · cases g with
    | request => exact Iff.rfl
    | signalling => simp [busy, hactive, hrun]
    | life c => rw [busy, busy, hlife]
  · cases g with
    | request => exact hw
    | signalling => exact absurd rfl hg
    | life c => rwa [waits, hlife]

omit [DecidableEq Cb] in
/-- The call of `__request_stop()` returns. -/
theorem signal_pop [DecidableEq Thread] (h : s.Stacks) (ht : s.frames t = .signalling :: rest)
    (hactive : s'.signal.active = false) (hframes : s'.frames = Function.update s.frames t rest)
    (hlife : s'.life = s.life) : s'.Stacks := by
  rw [State.Stacks, hframes]
  refine CallStack.Inv.pop h ht (fun g => ?_) fun g hg hw => ?_
  · cases g with
    | request => simp [busy]
    | signalling => simp [busy, hactive, Frame.single]
    | life c => simp [busy, hlife]
  · cases g with
    | request => exact hw
    | signalling => exact absurd trivial (hg rfl)
    | life c => rwa [waits, hlife]

end State.Stacks

end Stacks

/-! ## What every run keeps -/

section Places

variable {Thread Cb : Type*} {s s' : State Thread Cb (List Cb)}

/-- The call of `__request_stop()` that has set the flag. -/
structure State.Signalling (s : State Thread Cb (List Cb)) : Prop where
  requested : s.stopRequested = false ↔ s.signal = .idle
  before : s.signal.early = true → s.signallingThread = none
  thread : ∀ t, .signalling ∈ s.frames t → s.signal = .signalled ∨ s.signallingThread = some t
  rest : s.signal.last = true → s.queue = []

/-- The call of `__request_stop()` is where it was. -/
theorem State.Signalling.keep (h : s.Signalling) (hrequested : s'.stopRequested = s.stopRequested)
    (hsignal : s'.signal = s.signal) (hthread : s'.signallingThread = s.signallingThread)
    (hframes : ∀ u, .signalling ∈ s'.frames u → .signalling ∈ s.frames u)
    (hqueue : s.queue = [] → s'.queue = []) : s'.Signalling where
  requested := by
    rw [hrequested, hsignal]
    exact h.requested
  before := by
    rw [hsignal, hthread]
    exact h.before
  thread u hu := by
    rw [hsignal, hthread]
    exact h.thread u (hframes u hu)
  rest hlast := by
    rw [hsignal] at hlast
    exact hqueue (h.rest hlast)

/-- The call of `__request_stop()` that knows its thread goes on. -/
theorem State.Signalling.goes_on (h : s.Signalling)
    (hrequested : s'.stopRequested = s.stopRequested) (hsig : s.signal.early = false)
    (hsig' : s'.signal.early = false) (hthread : s'.signallingThread = s.signallingThread)
    (hframes : ∀ u, .signalling ∈ s'.frames u → .signalling ∈ s.frames u)
    (hrest : s'.signal.last = true → s'.queue = []) : s'.Signalling where
  requested := by
    have hne : s.signal ≠ .idle := by
      intro hidle
      rw [hidle] at hsig
      cases hsig
    have hne' : s'.signal ≠ .idle := by
      intro hidle
      rw [hidle] at hsig'
      cases hsig'
    rw [hrequested, h.requested]
    exact ⟨fun hidle => absurd hidle hne, fun hidle => absurd hidle hne'⟩
  before hearly := by
    rw [hsig'] at hearly
    cases hearly
  thread u hu := by
    rw [hthread]
    refine .inr ((h.thread u (hframes u hu)).resolve_left fun hsignalled => ?_)
    rw [hsignalled] at hsig
    cases hsig
  rest := hrest

/-- The lock: its holder is the call that has set the flag (`none`) or a constructor or a
destructor. -/
def State.hasLock {Q : Type*} (s : State Thread Cb Q) : Option Cb → Bool
  | none => s.signal.hasLock
  | some cb => (s.life cb).hasLock

/-- No call gets the lock or gives it back. -/
theorem lock_keep (h : Exclusive s.hasLock s.locked)
    (hsignal : s'.signal.hasLock = true → s.signal.hasLock = true)
    (hlife : ∀ cb, (s'.life cb).hasLock = true → (s.life cb).hasLock = true)
    (hlocked : s'.locked = s.locked) : Exclusive s'.hasLock s'.locked := by
  refine h.keep (fun y hy => ?_) hlocked
  cases y with
  | none => exact hsignal hy
  | some cb => exact hlife cb hy

variable [DecidableEq Cb]

/-- The constructor or the destructor of a callback gets the lock. -/
theorem lock_acquire {cb : Cb} {l : Life} (h : Exclusive s.hasLock s.locked)
    (hfree : s.locked = false) (hsignal : s'.signal = s.signal)
    (hlife : s'.life = Function.update s.life cb l) (hlocked : s'.locked = true) :
    Exclusive s'.hasLock s'.locked := by
  refine h.acquire hfree (some cb) (fun y hy => ?_) hlocked
  cases y with
  | none => exact .inr (by rwa [State.hasLock, hsignal] at hy)
  | some c =>
    by_cases hc : c = cb
    · exact .inl (congrArg some hc)
    · exact .inr (by rwa [State.hasLock, hlife, Function.update_of_ne hc] at hy)

/-- And gives it back. -/
theorem lock_release {cb : Cb} {l : Life} (h : Exclusive s.hasLock s.locked)
    (hlock : (s.life cb).hasLock = true) (hl : l.hasLock = false)
    (hsignal : s'.signal = s.signal) (hlife : s'.life = Function.update s.life cb l) :
    Exclusive s'.hasLock s'.locked := by
  refine h.release (x := some cb) hlock (fun y hy => ?_) _
  cases y with
  | none => exact ⟨by rwa [State.hasLock, hsignal] at hy, by simp⟩
  | some c =>
    by_cases hc : c = cb
    · subst hc
      rw [State.hasLock, hlife, Function.update_self, hl] at hy
      cases hy
    · refine ⟨by rwa [State.hasLock, hlife, Function.update_of_ne hc] at hy, ?_⟩
      rintro ⟨⟩
      exact hc rfl

/-- A destructor that runs on the thread of the call of `__request_stop()` runs inside the
callback that is executed. -/
theorem State.Stacks.waiting_of_removed {t : Thread} {cb c : Cb} {rest : List (Frame Cb)}
    (h : s.Stacks)
    (hthread : ∀ t, .signalling ∈ s.frames t → s.signal = .signalled ∨ s.signallingThread = some t)
    (ht : s.frames t = .life cb :: rest) (hsame : s.signallingThread = some t)
    (habout : s.signal.about c = true) : s.signal.waiting = true := by
  have hactive : s.signal.active = true := by
    cases hsig : s.signal <;> simp_all [Signal.about, Signal.active]
  obtain ⟨u, hu⟩ := h.somewhere .signalling trivial hactive
  have hut : u = t := by
    rcases hthread u hu with hsig | hu
    · simp [hsig, Signal.about] at habout
    · rw [hu] at hsame
      exact Option.some.inj hsame
  subst hut
  rw [ht] at hu
  rcases List.mem_cons.mp hu with hu | hu
  · cases hu
  · exact h.suspended u (.life cb) rest .signalling ht hu

/-- Where the callback is. -/
structure State.Placed (s : State Thread Cb (List Cb)) (cb : Cb) : Prop where
  queued : cb ∈ s.queue →
    (s.life cb).joined = true ∧ s.signal.about cb = false ∧ s.callbackFinishedExecuting cb = false
  taken : s.signal.about cb = true → s.callbackFinishedExecuting cb = false ∧
    ((s.life cb).joined = true ∨ (s.life cb).leaving = true ∨
      s.life cb = .destroyed ∧ s.signal.during cb = true)
  finished : s.callbackFinishedExecuting cb = true → (s.life cb).joined = true ∨
    (s.life cb).leaving = true ∨ s.life cb = .destroyed
  joined : (s.life cb).joined = true → cb ∈ s.queue ∨ s.signal.about cb = true ∨
    s.callbackFinishedExecuting cb = true
  leaving : (s.life cb).leaving = true → s.signal.about cb = true ∨
    s.callbackFinishedExecuting cb = true
  removed : s.signal.during cb = true → (s.isRemoved = true ↔ s.life cb = .destroyed)
  pointed : s.signal.during cb = true → s.isRemoved = false → s.isRemovedSet cb = true
  points : s.isRemovedSet cb = true → s.life cb ≠ .destroyed → s.signal.during cb = true

/-- Nothing happens to the callback. -/
theorem State.Placed.other {cb : Cb} (h : s.Placed cb) (hqueue : cb ∈ s'.queue ↔ cb ∈ s.queue)
    (habout : s'.signal.about cb = s.signal.about cb)
    (hduring : s'.signal.during cb = s.signal.during cb)
    (hremoved : s.signal.during cb = true → s'.isRemoved = s.isRemoved)
    (hset : s'.isRemovedSet cb = s.isRemovedSet cb)
    (hfinished : s'.callbackFinishedExecuting cb = s.callbackFinishedExecuting cb)
    (hlife : (s'.life cb).SamePlace (s.life cb)) : s'.Placed cb := by
  obtain ⟨hjoined, hleaving, hdestroyed⟩ := hlife
  refine ⟨?_, ?_, ?_, ?_, ?_, ?_, ?_, ?_⟩
  · rw [hqueue, hjoined, habout, hfinished]
    exact h.queued
  · rw [habout, hfinished, hjoined, hleaving, hdestroyed, hduring]
    exact h.taken
  · rw [hfinished, hjoined, hleaving, hdestroyed]
    exact h.finished
  · rw [hjoined, hqueue, habout, hfinished]
    exact h.joined
  · rw [hleaving, habout, hfinished]
    exact h.leaving
  · intro hd
    rw [hduring] at hd
    rw [hremoved hd, hdestroyed]
    exact h.removed hd
  · intro hd
    rw [hduring] at hd
    rw [hremoved hd, hset]
    exact h.pointed hd
  · rw [hset, Ne, hdestroyed, hduring]
    exact h.points

/-- The constructor or the destructor of one callback goes on, and changes nothing else. -/
theorem State.Placed.life_move {c cb : Cb} {l : Life} (h : ∀ cb, s.Placed cb)
    (hlife : s'.life = Function.update s.life c l) (hplace : l.SamePlace (s.life c))
    (hqueue : s'.queue = s.queue) (hsignal : s'.signal = s.signal)
    (hremoved : s'.isRemoved = s.isRemoved) (hset : s'.isRemovedSet = s.isRemovedSet)
    (hfinished : s'.callbackFinishedExecuting = s.callbackFinishedExecuting) :
    s'.Placed cb := by
  refine (h cb).other (by rw [hqueue]) (by rw [hsignal]) (by rw [hsignal]) (fun _ => hremoved)
    (by rw [hset]) (by rw [hfinished]) ?_
  by_cases hc : cb = c
  · subst hc
    rw [hlife, Function.update_self]
    exact hplace
  · rw [hlife, Function.update_of_ne hc]
    exact .refl _

/-- The constructor or the destructor of another callback goes on. -/
theorem State.Placed.of_ne {c cb : Cb} {l : Life} (h : s.Placed cb) (hc : cb ≠ c)
    (hlife : s'.life = Function.update s.life c l) (hqueue : cb ∈ s'.queue ↔ cb ∈ s.queue)
    (hsignal : s'.signal = s.signal)
    (hremoved : s.signal.during cb = true → s'.isRemoved = s.isRemoved)
    (hset : s'.isRemovedSet = s.isRemovedSet)
    (hfinished : s'.callbackFinishedExecuting = s.callbackFinishedExecuting) : s'.Placed cb := by
  refine h.other hqueue (by rw [hsignal]) (by rw [hsignal]) hremoved (by rw [hset])
    (by rw [hfinished]) ?_
  rw [hlife, Function.update_of_ne hc]
  exact .refl _

/-- The call of `__request_stop()` says that the callback has finished. -/
theorem State.Placed.taken_finished {c cb : Cb} {anyMore : Bool} (h : ∀ cb, s.Placed cb)
    (hsig : s.signal = .executed c anyMore) (hremoved : s.isRemoved = false)
    (hsignal : ∀ cb, s'.signal.about cb = false) (hqueue : s'.queue = s.queue)
    (hremoved' : s'.isRemoved = s.isRemoved)
    (hset : s'.isRemovedSet = Function.update s.isRemovedSet c false)
    (hfinished : s'.callbackFinishedExecuting =
      Function.update s.callbackFinishedExecuting c true)
    (hlife : s'.life = s.life) : s'.Placed cb := by
  have hduring (cb : Cb) : s'.signal.during cb = false := Signal.not_during (hsignal cb)
  rcases eq_or_ne cb c with rfl | hc
  · obtain ⟨hqueued, htaken, -, hjoined, hleaving, hgone, hpointed, hpoints⟩ := h cb
    have hlives : s.life cb ≠ .destroyed := by
      rw [Ne, ← hgone (by simp [hsig, Signal.during]), hremoved]
      exact Bool.false_ne_true
    have hset : s'.isRemovedSet cb = false := by rw [hset, Function.update_self]
    have hfinished : s'.callbackFinishedExecuting cb = true := by
      rw [hfinished, Function.update_self]
    constructor <;> grind [Signal.about, Signal.during]
  · refine (h cb).other (by rw [hqueue]) ?_ ?_ (fun _ => hremoved') ?_ ?_
      (by rw [hlife]; exact .refl _)
    · rw [hsignal, hsig]
      simp [Signal.about, hc.symm]
    · rw [hduring, hsig]
      simp [Signal.during, hc.symm]
    · simp [hset, hc]
    · simp [hfinished, hc]

/-- It leaves a callback alone that has been destroyed while it was executed. -/
theorem State.Placed.taken_gone {c cb : Cb} {anyMore : Bool} (h : ∀ cb, s.Placed cb)
    (hsig : s.signal = .executed c anyMore) (hremoved : s.isRemoved = true)
    (hsignal : ∀ cb, s'.signal.about cb = false) (hqueue : s'.queue = s.queue)
    (hset : s'.isRemovedSet = s.isRemovedSet)
    (hfinished : s'.callbackFinishedExecuting = s.callbackFinishedExecuting)
    (hremoved' : s'.isRemoved = s.isRemoved)
    (hlife : s'.life = s.life) : s'.Placed cb := by
  have hduring (cb : Cb) : s'.signal.during cb = false := Signal.not_during (hsignal cb)
  rcases eq_or_ne cb c with rfl | hc
  · obtain ⟨hqueued, htaken, -, hjoined, hleaving, hgone, hpointed, hpoints⟩ := h cb
    have hdestroyed : s.life cb = .destroyed :=
      (hgone (by simp [hsig, Signal.during])).mp hremoved
    constructor <;> grind [Signal.about, Signal.during, Life.joined, Life.leaving]
  · refine (h cb).other (by rw [hqueue]) ?_ ?_ (fun _ => hremoved') (by rw [hset])
      (by rw [hfinished]) (by rw [hlife]; exact .refl _)
    · rw [hsignal, hsig]
      simp [Signal.about, hc.symm]
    · rw [hduring, hsig]
      simp [Signal.during, hc.symm]

/-- The callback is destroyed while nobody executes it. -/
theorem State.Placed.destroyed {cb : Cb} (hlife : s'.life cb = .destroyed) (hqueue : cb ∉ s'.queue)
    (habout : s'.signal.about cb = false) (hset : s'.signal.during cb = false) : s'.Placed cb := by
  constructor <;> simp [hlife, hqueue, habout, hset, Life.joined, Life.leaving]

/-- The callback is destroyed inside its own execution, or after it. -/
theorem State.Placed.removed_here {cb : Cb} (h : s.Placed cb) (hremoving : s.life cb = .removed)
    (hinside : s.signal.about cb = true → s.signal.during cb = true)
    (hlife : s'.life cb = .destroyed) (hqueue : s'.queue = s.queue) (hsignal : s'.signal = s.signal)
    (hremoved : s'.isRemoved = (s.isRemoved || s.isRemovedSet cb))
    (hfinished : s'.callbackFinishedExecuting = s.callbackFinishedExecuting) : s'.Placed cb := by
  have hout : cb ∉ s.queue := by
    intro hin
    have hjoined := (h.queued hin).1
    rw [hremoving] at hjoined
    cases hjoined
  have hflag (hd : s.signal.during cb = true) : (s.isRemoved || s.isRemovedSet cb) = true := by
    rw [Bool.or_eq_true]
    exact (Bool.eq_false_or_eq_true s.isRemoved).imp id (h.pointed hd)
  refine ⟨fun hin => ?_, fun habout => ?_, fun _ => .inr (.inr hlife), fun hj => ?_, fun hl => ?_,
    fun hd => ?_, fun hd hno => ?_, fun _ hlives => absurd hlife hlives⟩
  · rw [hqueue] at hin
    exact absurd hin hout
  · rw [hsignal] at habout ⊢
    rw [hfinished]
    exact ⟨(h.taken habout).1, .inr (.inr ⟨hlife, hinside habout⟩)⟩
  · rw [hlife] at hj
    cases hj
  · rw [hlife] at hl
    cases hl
  · rw [hsignal] at hd
    rw [hremoved, hflag hd]
    exact ⟨fun _ => hlife, fun _ => rfl⟩
  · rw [hsignal] at hd
    rw [hremoved, hflag hd] at hno
    cases hno

/-- The destructor has not found the callback in the list. -/
theorem State.Placed.unlinked {cb : Cb} (h : s.Placed cb) (hunlink : s.life cb = .unlink)
    (hout : cb ∉ s.queue) (hlife : s'.life cb = .removed) (hqueue : s'.queue = s.queue)
    (hsignal : s'.signal = s.signal) (hremoved : s'.isRemoved = s.isRemoved)
    (hset : s'.isRemovedSet = s.isRemovedSet)
    (hfinished : s'.callbackFinishedExecuting = s.callbackFinishedExecuting) : s'.Placed cb := by
  have hjoined := (h.joined (by rw [hunlink]; rfl)).resolve_left hout
  refine ⟨fun hin => ?_, fun habout => ?_, fun _ => .inr (.inl (by rw [hlife]; rfl)), fun hj => ?_,
    fun _ => ?_, fun hd => ?_, fun hd => ?_, fun hset' _ => ?_⟩
  · rw [hqueue] at hin
    exact absurd hin hout
  · rw [hsignal] at habout
    rw [hfinished]
    exact ⟨(h.taken habout).1, .inr (.inl (by rw [hlife]; rfl))⟩
  · rw [hlife] at hj
    cases hj
  · rw [hsignal, hfinished]
    exact hjoined
  · rw [hsignal] at hd
    rw [hremoved, h.removed hd, hunlink, hlife]
    simp
  · rw [hsignal] at hd
    rw [hremoved, hset]
    exact h.pointed hd
  · rw [hset] at hset'
    rw [hsignal]
    exact h.points hset' (by rw [hunlink]; simp)

/-- The callback is taken out of the list. -/
theorem State.Placed.dequeued {cb : Cb} {queue : List Cb} (h : s.Placed cb)
    (hnodup : s.queue.Nodup) (hqueue : s.queue = cb :: queue) (hqueue' : s'.queue = queue)
    (habout : s'.signal.about cb = true) (hduring : s'.signal.during cb = false)
    (hlife : s'.life = s.life) (hset : s'.isRemovedSet = s.isRemovedSet)
    (hfinished : s'.callbackFinishedExecuting = s.callbackFinishedExecuting) : s'.Placed cb := by
  obtain ⟨hjoined, hnot, hno⟩ := h.queued (by rw [hqueue]; exact List.mem_cons_self)
  have hlives : s.life cb ≠ .destroyed := by
    intro hgone
    rw [hgone] at hjoined
    cases hjoined
  have hout : cb ∉ queue := by
    rw [hqueue] at hnodup
    exact (List.nodup_cons.mp hnodup).1
  constructor
  · rw [hqueue']
    exact fun hin => absurd hin hout
  · rw [hfinished, hlife]
    exact fun _ => ⟨hno, .inl hjoined⟩
  · rw [hlife]
    exact fun _ => .inl hjoined
  · exact fun _ => .inr (.inl habout)
  · exact fun _ => .inl habout
  · simp [hduring]
  · simp [hduring]
  · rw [hset]
    intro hflag _
    have hduring := Signal.not_during hnot
    rw [h.points hflag hlives] at hduring
    cases hduring

/-- The callback that has been taken out of the list is executed. -/
theorem State.Placed.executed {cb : Cb} (h : s.Placed cb) (habout : s.signal.about cb = true)
    (hduring : s.signal.during cb = false) (hqueue : s'.queue = s.queue)
    (habout' : s'.signal.about cb = true) (hduring' : s'.signal.during cb = true)
    (hlife : s'.life = s.life) (hremoved : s'.isRemoved = false) (hset : s'.isRemovedSet cb = true)
    (hfinished : s'.callbackFinishedExecuting = s.callbackFinishedExecuting) : s'.Placed cb := by
  obtain ⟨hno, hplace⟩ := h.taken habout
  rw [hduring] at hplace
  have hlives : s.life cb ≠ .destroyed := by
    intro hgone
    simp [hgone, Life.joined, Life.leaving] at hplace
  have hthere : (s.life cb).joined = true ∨ (s.life cb).leaving = true := by
    simpa using hplace
  constructor
  · rw [hqueue]
    intro hin
    rw [(h.queued hin).2.1] at habout
    cases habout
  · rw [hfinished, hlife]
    exact fun _ => ⟨hno, hthere.imp id .inl⟩
  · rw [hlife]
    exact fun _ => hthere.imp id .inl
  · exact fun _ => .inr (.inl habout')
  · exact fun _ => .inl habout'
  · simp [hremoved, hlife, hlives]
  · exact fun _ _ => hset
  · exact fun _ _ => hduring'

/-- The callback is put into the list. -/
theorem State.Placed.pushed {cb : Cb} (h : s.Placed cb) (hpush : s.life cb = .push)
    (hidle : s.signal = .idle) (hlife : s'.life cb = .added) (hqueue : cb ∈ s'.queue)
    (hsignal : s'.signal = s.signal) (hset : s'.isRemovedSet = s.isRemovedSet)
    (hfinished : s'.callbackFinishedExecuting = s.callbackFinishedExecuting) : s'.Placed cb := by
  have hno : s.callbackFinishedExecuting cb = false := by
    rw [Bool.eq_false_iff]
    intro hyes
    simpa [hpush, Life.joined, Life.leaving] using h.finished hyes
  rw [hidle] at hsignal
  constructor
  · rw [hlife, hsignal, hfinished]
    exact fun _ => ⟨rfl, rfl, hno⟩
  · simp [hsignal, Signal.about]
  · simp [hfinished, hno]
  · exact fun _ => .inl hqueue
  · simp [hlife, Life.leaving]
  · simp [hsignal, Signal.during]
  · simp [hsignal, Signal.during]
  · rw [hset]
    intro hflag _
    simpa [hidle, Signal.during] using h.points hflag (by simp [hpush])

end Places

/-! ## The steps -/

section Invariants

variable {Thread Cb : Type*} [DecidableEq Thread] [DecidableEq Cb]
variable {s s' : State Thread Cb (List Cb)} {es : List (Event Thread Cb)}

theorem stacks_move (h : s.Stacks) (hstart : s.stopRequested = false → s.signal = .idle)
    (hm : Move s s' es) : s'.Stacks := by
  cases hm with
  | @request t hcode =>
    refine CallStack.Inv.push h (fun hin => h.waits_of_userCode hcode _ hin) (fun hf => hf.elim)
      (h.waits_of_userCode hcode) (fun g => ?_) fun g _ hw => ?_
    · cases g <;> simp [State.busy, State.setFrames]
    · cases g <;> exact hw
  | construct hcode hlife => exact h.life_push hcode (by rw [hlife]; rfl) rfl rfl rfl rfl
  | destroy hcode hlife => exact h.life_push hcode (by rw [hlife]; rfl) rfl rfl rfl rfl
  | destroyDetached hlife => exact h.life_idle (by rw [hlife]; rfl) rfl rfl rfl rfl
  | refused ht =>
    refine CallStack.Inv.pop h ht (fun g => ?_) fun g _ hw => ?_
    · cases g <;> simp [State.busy, State.setFrames, Frame.single]
    · cases g <;> exact hw
  | signal ht hstop hlock =>
    have hidle : s.signal.active = false := by
      rw [hstart hstop]
      rfl
    refine CallStack.Inv.replace h ht (fun hf => hf) ?_ (fun g => ?_) fun g hg hw => ?_
    · simp [State.busy, hidle]
    · cases g <;> simp [State.busy, State.setFrames, Signal.active]
    · cases g with
      | request => exact hw
      | signalling => exact absurd trivial (hg rfl)
      | life c => exact hw
  | signalled ht hsig => exact h.signal_keep ht rfl rfl rfl
  | empty ht hsig hqueue => exact h.signal_pop ht rfl rfl rfl
  | dequeue ht hsig hqueue => exact h.signal_keep ht rfl rfl rfl
  | execute ht hsig => exact h.signal_keep ht rfl rfl rfl
  | finish ht hsig => exact h.signal_keep ht rfl rfl rfl
  | executedMore ht hsig hremoved => exact h.signal_keep ht rfl rfl rfl
  | executedLast ht hsig hremoved => exact h.signal_pop ht rfl rfl rfl
  | goneMore ht hsig hremoved => exact h.signal_keep ht rfl rfl rfl
  | goneLast ht hsig hremoved => exact h.signal_pop ht rfl rfl rfl
  | relock ht hsig hlock => exact h.signal_keep ht rfl rfl rfl
  | inlined ht hlife hstop => exact h.life_keep ht rfl rfl rfl rfl
  | impossible ht hlife hstop => exact h.life_pop ht rfl rfl rfl rfl
  | lockAdd ht hlife hstop hlock => exact h.life_keep ht rfl rfl rfl rfl
  | push ht hlife => exact h.life_keep ht rfl rfl rfl rfl
  | added ht hlife => exact h.life_pop ht rfl rfl rfl rfl
  | finishInlined ht hlife => exact h.life_pop ht rfl rfl rfl rfl
  | lockRemove ht hlife hlock => exact h.life_keep ht rfl rfl rfl rfl
  | unlink ht hlife hqueue => exact h.life_pop ht rfl rfl rfl rfl
  | unlinked ht hlife hqueue => exact h.life_keep ht rfl rfl rfl rfl
  | removedHere ht hlife hthread => exact h.life_pop ht rfl rfl rfl rfl
  | removedElsewhere ht hlife hthread => exact h.life_keep ht rfl rfl rfl rfl
  | awaited ht hlife hfinished => exact h.life_pop ht rfl rfl rfl rfl
  | lastSource => exact h.unchanged rfl rfl rfl

/-- One call at most has the lock, and the flag of the lock is up for it. -/
theorem lock_move (h : Exclusive s.hasLock s.locked) (hm : Move s s' es) :
    Exclusive s'.hasLock s'.locked := by
  cases hm with
  | signal ht hstop hlock =>
    refine h.acquire hlock none (fun y hy => ?_) rfl
    cases y <;> simp_all [State.hasLock, State.setFrames]
  | relock ht hsig hlock =>
    refine h.acquire hlock none (fun y hy => ?_) rfl
    cases y <;> simp_all [State.hasLock]
  | lockAdd ht hlife hstop hlock => exact lock_acquire h hlock rfl rfl rfl
  | lockRemove ht hlife hlock => exact lock_acquire h hlock rfl rfl rfl
  | empty ht hsig hqueue =>
    refine h.release (x := none) (by rw [State.hasLock, hsig]; rfl) (fun y hy => ?_) _
    cases y <;> simp_all [State.hasLock, State.setFrames, Signal.hasLock]
  | dequeue ht hsig hqueue =>
    refine h.release (x := none) (by rw [State.hasLock, hsig]; rfl) (fun y hy => ?_) _
    cases y <;> simp_all [State.hasLock, Signal.hasLock]
  | push ht hlife => exact lock_release h (by rw [hlife]; rfl) rfl rfl rfl
  | unlink ht hlife hqueue => exact lock_release h (by rw [hlife]; rfl) rfl rfl rfl
  | unlinked ht hlife hqueue => exact lock_release h (by rw [hlife]; rfl) rfl rfl rfl
  | _ =>
    apply lock_keep h <;> simp only [State.setFrames, State.setLife, Function.update_apply] <;>
      grind [Life.hasLock, Signal.hasLock]

omit [DecidableEq Cb] in
/-- What is below a new call was there before. -/
theorem mem_of_push {t u : Thread} {f g : Frame Cb} (hg : g ≠ f)
    (hu : g ∈ Function.update s.frames t (f :: s.frames t) u) : g ∈ s.frames u := by
  rcases CallStack.Inv.mem_update.mp hu with ⟨rfl, hin⟩ | ⟨-, hin⟩
  · exact (List.mem_cons.mp hin).resolve_left hg
  · exact hin

omit [DecidableEq Cb] in
theorem mem_of_pop {t u : Thread} {f g : Frame Cb} {rest : List (Frame Cb)}
    (ht : s.frames t = f :: rest) (hu : g ∈ Function.update s.frames t rest u) :
    g ∈ s.frames u := by
  rcases CallStack.Inv.mem_update.mp hu with ⟨rfl, hin⟩ | ⟨-, hin⟩
  · rw [ht]
    exact List.mem_cons_of_mem f hin
  · exact hin

theorem State.Signalling.move (h : s.Signalling) (hstacks : s.Stacks)
    (hpush : ∀ cb, s.life cb = .push → s.signal = .idle) (hm : Move s s' es) :
    s'.Signalling := by
  have hpop {t : Thread} {cb : Cb} {rest : List (Frame Cb)} (ht : s.frames t = .life cb :: rest)
      (u : Thread) : .signalling ∈ Function.update s.frames t rest u → .signalling ∈ s.frames u :=
    mem_of_pop ht
  cases hm with
  | request hcode => exact h.keep rfl rfl rfl (fun u => mem_of_push (by simp)) id
  | construct hcode hlife => exact h.keep rfl rfl rfl (fun u => mem_of_push (by simp)) id
  | destroy hcode hlife => exact h.keep rfl rfl rfl (fun u => mem_of_push (by simp)) id
  | refused ht hstop => exact h.keep rfl rfl rfl (fun u => mem_of_pop ht) id
  | @signal t rest ht hstop hlock =>
    have hidle := h.requested.mp hstop
    refine ⟨by simp [State.setFrames], fun _ => h.before (by rw [hidle]; rfl), fun _ _ => .inl rfl,
      fun hlast => ?_⟩
    cases hlast
  | @signalled t rest ht hsig =>
    refine ⟨⟨fun hrequested => ?_, fun hidle => ?_⟩, fun hearly => ?_, fun u hu => ?_,
      fun hlast => ?_⟩
    · have hidle := h.requested.mp hrequested
      rw [hsig] at hidle
      cases hidle
    · cases hidle
    · cases hearly
    · -- no other thread is in that call
      have htop : .signalling ∈ s.frames t := by
        rw [ht]
        exact List.mem_cons_self
      exact .inr (congrArg some (hstacks.unique .signalling u t trivial hu htop)).symm
    · cases hlast
  | empty ht hsig hqueue =>
    exact h.goes_on rfl (by rw [hsig]; rfl) rfl rfl (fun u => mem_of_pop ht) fun _ => hqueue
  | dequeue ht hsig hqueue =>
    refine h.goes_on rfl (by rw [hsig]; rfl) rfl rfl (fun _ => id) fun hlast => ?_
    simpa [Signal.last] using hlast
  | execute ht hsig =>
    refine h.goes_on rfl (by rw [hsig]; rfl) rfl rfl (fun _ => id) fun hlast => ?_
    exact h.rest (by rw [hsig]; exact hlast)
  | finish ht hsig =>
    refine h.goes_on rfl (by rw [hsig]; rfl) rfl rfl (fun _ => id) fun hlast => ?_
    exact h.rest (by rw [hsig]; exact hlast)
  | executedMore ht hsig hremoved =>
    refine h.goes_on rfl (by rw [hsig]; rfl) rfl rfl (fun _ => id) fun hlast => ?_
    cases hlast
  | executedLast ht hsig hremoved =>
    exact h.goes_on rfl (by rw [hsig]; rfl) rfl rfl (fun u => mem_of_pop ht) fun _ =>
      h.rest (by rw [hsig]; rfl)
  | goneMore ht hsig hremoved =>
    refine h.goes_on rfl (by rw [hsig]; rfl) rfl rfl (fun _ => id) fun hlast => ?_
    cases hlast
  | goneLast ht hsig hremoved =>
    exact h.goes_on rfl (by rw [hsig]; rfl) rfl rfl (fun u => mem_of_pop ht) fun _ =>
      h.rest (by rw [hsig]; rfl)
  | relock ht hsig hlock =>
    refine h.goes_on rfl (by rw [hsig]; rfl) rfl rfl (fun _ => id) fun hlast => ?_
    cases hlast
  | push ht hlife =>
    refine ⟨h.requested, h.before, h.thread, fun hlast => ?_⟩
    have hidle := hpush _ hlife
    rw [State.setLife, hidle] at hlast
    cases hlast
  | impossible ht hlife hstop => exact h.keep rfl rfl rfl (hpop ht) id
  | added ht hlife => exact h.keep rfl rfl rfl (hpop ht) id
  | finishInlined ht hlife => exact h.keep rfl rfl rfl (hpop ht) id
  | removedHere ht hlife hthread => exact h.keep rfl rfl rfl (hpop ht) id
  | awaited ht hlife hfinished => exact h.keep rfl rfl rfl (hpop ht) id
  | unlink ht hlife hqueue =>
    refine h.keep rfl rfl rfl (hpop ht) fun hnone => ?_
    rw [hnone] at hqueue
    cases hqueue
  | _ => exact h.keep rfl rfl rfl (fun _ => id) id

/-- Callbacks are only added while no stop has been requested. -/
theorem push_move (h : ∀ cb, s.life cb = .push → s.signal = .idle) (hsig : s.Signalling)
    (hlock : Exclusive s.hasLock s.locked) (hm : Move s s' es) :
    ∀ cb, s'.life cb = .push → s'.signal = .idle := by
  have hnobody (hfree : s.locked = false) (cb : Cb) : s.life cb ≠ .push := by
    intro hlife
    have hno := hlock.nobody hfree (some cb)
    rw [State.hasLock, hlife] at hno
    cases hno
  have hlater {signal : Signal Cb} (hne : s.signal ≠ .idle) (cb : Cb) (hlife : s.life cb = .push) :
      signal = .idle := absurd (h cb hlife) hne
  have hupdate {c : Cb} {l : Life} (hl : l ≠ .push) (cb : Cb)
      (hlife : Function.update s.life c l cb = .push) : s.signal = .idle := by
    by_cases hc : cb = c
    · rw [hc, Function.update_self] at hlife
      exact absurd hlife hl
    · rw [Function.update_of_ne hc] at hlife
      exact h cb hlife
  cases hm with
  | request hcode => exact h
  | refused ht hstop => exact h
  | lastSource => exact h
  | signal ht hstop hfree => exact fun cb hlife => absurd hlife (hnobody hfree cb)
  | signalled ht hsig => exact hlater (by simp [hsig])
  | empty ht hsig hqueue => exact hlater (by simp [hsig])
  | dequeue ht hsig hqueue => exact hlater (by simp [hsig])
  | execute ht hsig => exact hlater (by simp [hsig])
  | finish ht hsig => exact hlater (by simp [hsig])
  | executedMore ht hsig hremoved => exact hlater (by simp [hsig])
  | executedLast ht hsig hremoved => exact hlater (by simp [hsig])
  | goneMore ht hsig hremoved => exact hlater (by simp [hsig])
  | goneLast ht hsig hremoved => exact hlater (by simp [hsig])
  | relock ht hsig hfree => exact hlater (by simp [hsig])
  | lockAdd ht hlife hstop hfree => exact fun _ _ => hsig.requested.mp hstop
  | _ => exact hupdate (by simp)

theorem State.Placed.move (h : ∀ cb, s.Placed cb) (hstacks : s.Stacks) (hsig : s.Signalling)
    (hnodup : s.queue.Nodup) (hpush : ∀ cb, s.life cb = .push → s.signal = .idle)
    (hm : Move s s' es) (cb : Cb) : s'.Placed cb := by
  obtain ⟨hrequested, hbefore, hthread, hrest⟩ := hsig
  cases hm with
  | request hcode => exact (h cb).other Iff.rfl rfl rfl (fun _ => rfl) rfl rfl (.refl _)
  | construct hcode hlife =>
    exact life_move (l := .add) h rfl (by rw [hlife]; decide) rfl rfl rfl rfl rfl
  | destroy hcode hlife =>
    exact life_move (l := .remove) h rfl (by rw [hlife]; decide) rfl rfl rfl rfl rfl
  | @destroyDetached t c hlife =>
    rcases eq_or_ne cb c with rfl | hc
    · have hout : cb ∉ s.queue := fun hin => by
        simpa [hlife, Life.joined] using ((h cb).queued hin).1
      have habout : s.signal.about cb = false := by
        rw [Bool.eq_false_iff]
        intro habout
        simpa [hlife, Life.joined, Life.leaving] using ((h cb).taken habout).2
      exact .destroyed (Function.update_self ..) hout habout (Signal.not_during habout)
    · exact (h cb).of_ne (l := .destroyed) hc rfl Iff.rfl rfl (fun _ => rfl) rfl rfl
  | refused ht hstop => exact (h cb).other Iff.rfl rfl rfl (fun _ => rfl) rfl rfl (.refl _)
  | signal ht hstop hlock =>
    have hsig := hrequested.mp hstop
    exact (h cb).other Iff.rfl (by rw [hsig]; rfl) (by rw [hsig]; rfl) (fun _ => rfl) rfl rfl
      (.refl _)
  | signalled ht hsig =>
    exact (h cb).other Iff.rfl (by rw [hsig]; rfl) (by rw [hsig]; rfl) (fun _ => rfl) rfl rfl
      (.refl _)
  | empty ht hsig hqueue =>
    exact (h cb).other Iff.rfl (by rw [hsig]; rfl) (by rw [hsig]; rfl) (fun _ => rfl) rfl rfl
      (.refl _)
  | relock ht hsig hlock =>
    exact (h cb).other Iff.rfl (by rw [hsig]; rfl) (by rw [hsig]; rfl) (fun _ => rfl) rfl rfl
      (.refl _)
  | @dequeue t rest c queue ht hsig hqueue =>
    rcases eq_or_ne cb c with rfl | hc
    · exact (h cb).dequeued hnodup hqueue rfl (by simp [Signal.about]) rfl rfl rfl rfl
    · refine (h cb).other ?_ ?_ ?_ (fun _ => rfl) rfl rfl (.refl _)
      · simp [hqueue, hc]
      · simp [hsig, Signal.about, hc.symm]
      · simp [hsig, Signal.during]
  | @execute t rest c anyMore ht hsig =>
    rcases eq_or_ne cb c with rfl | hc
    · exact (h cb).executed (by simp [hsig, Signal.about]) (by rw [hsig]; rfl) rfl
        (by simp [Signal.about]) (by simp [Signal.during]) rfl rfl (Function.update_self ..) rfl
    · refine (h cb).other Iff.rfl ?_ ?_ ?_ ?_ rfl (.refl _)
      · simp [hsig, Signal.about]
      · simp [hsig, Signal.during, hc.symm]
      · simp [hsig, Signal.during]
      · simp [hc]
  | finish ht hsig =>
    exact (h cb).other Iff.rfl (by rw [hsig]; rfl) (by rw [hsig]; rfl) (fun _ => rfl) rfl rfl
      (.refl _)
  | executedMore ht hsig hremoved =>
    exact taken_finished h hsig hremoved (fun _ => rfl) rfl rfl rfl rfl rfl
  | executedLast ht hsig hremoved =>
    exact taken_finished h hsig hremoved (fun _ => rfl) rfl rfl rfl rfl rfl
  | goneMore ht hsig hremoved => exact taken_gone h hsig hremoved (fun _ => rfl) rfl rfl rfl rfl rfl
  | goneLast ht hsig hremoved => exact taken_gone h hsig hremoved (fun _ => rfl) rfl rfl rfl rfl rfl
  | inlined ht hlife hstop =>
    exact life_move (l := .inlined) h rfl (by rw [hlife]; decide) rfl rfl rfl rfl rfl
  | impossible ht hlife hstop =>
    exact life_move (l := .detached) h rfl (by rw [hlife]; decide) rfl rfl rfl rfl rfl
  | lockAdd ht hlife hstop hlock =>
    exact life_move (l := .push) h rfl (by rw [hlife]; decide) rfl rfl rfl rfl rfl
  | @push t rest c ht hlife =>
    have hidle := hpush c hlife
    rcases eq_or_ne cb c with rfl | hc
    · exact (h cb).pushed hlife hidle (Function.update_self ..) List.mem_cons_self rfl rfl rfl
    · exact (h cb).of_ne (l := .added) hc rfl (by simp [State.setLife, hc]) rfl (fun _ => rfl) rfl
        rfl
  | added ht hlife =>
    exact life_move (l := .registered) h rfl (by rw [hlife]; decide) rfl rfl rfl rfl rfl
  | finishInlined ht hlife =>
    exact life_move (l := .detached) h rfl (by rw [hlife]; decide) rfl rfl rfl rfl rfl
  | lockRemove ht hlife hlock =>
    exact life_move (l := .unlink) h rfl (by rw [hlife]; decide) rfl rfl rfl rfl rfl
  | @unlink t rest c ht hlife hqueue =>
    rcases eq_or_ne cb c with rfl | hc
    · have habout := ((h cb).queued hqueue).2.1
      exact .destroyed (Function.update_self ..) hnodup.not_mem_erase habout
        (Signal.not_during habout)
    · exact (h cb).of_ne (l := .destroyed) hc rfl
        (by simp [State.setLife, State.setFrames, List.mem_erase_of_ne hc]) rfl (fun _ => rfl) rfl
        rfl
  | @unlinked t rest c ht hlife hqueue =>
    rcases eq_or_ne cb c with rfl | hc
    · exact (h cb).unlinked hlife hqueue (Function.update_self ..) rfl rfl rfl rfl rfl
    · exact (h cb).of_ne (l := .removed) hc rfl Iff.rfl rfl (fun _ => rfl) rfl rfl
  | @removedHere t rest c ht hlife hsame =>
    -- its flag is there, since the destructor runs inside the callback that is executed
    have hinside (habout : s.signal.about c = true) : s.signal.during c = true := by
      have hwaiting := hstacks.waiting_of_removed hthread ht hsame habout
      cases hsig : s.signal <;> simp_all [Signal.about, Signal.waiting, Signal.during]
    rcases eq_or_ne cb c with rfl | hc
    · exact (h cb).removed_here hlife hinside (Function.update_self ..) rfl rfl rfl rfl
    · refine (h cb).of_ne (l := .destroyed) hc rfl Iff.rfl rfl (fun hd => ?_) rfl rfl
      have hset : s.isRemovedSet c = false := by
        rw [Bool.eq_false_iff]
        intro hset
        exact hc (Signal.during_unique hd ((h c).points hset (by simp [hlife])))
      simp [State.setFrames, State.setLife, hset]
  | removedElsewhere ht hlife hthread =>
    exact life_move (l := .await) h rfl (by rw [hlife]; decide) rfl rfl rfl rfl rfl
  | @awaited t rest c ht hlife hfinished =>
    rcases eq_or_ne cb c with rfl | hc
    · have hout : cb ∉ s.queue := fun hin => by
        simpa [hlife, Life.joined] using ((h cb).queued hin).1
      have habout : s.signal.about cb = false := by
        rw [Bool.eq_false_iff]
        intro habout
        rw [((h cb).taken habout).1] at hfinished
        cases hfinished
      exact .destroyed (Function.update_self ..) hout habout (Signal.not_during habout)
    · exact (h cb).of_ne (l := .destroyed) hc rfl Iff.rfl rfl (fun _ => rfl) rfl rfl
  | lastSource => exact (h cb).other Iff.rfl rfl rfl (fun _ => rfl) rfl rfl (.refl _)

/-- Somebody has the lock while its flag is up. -/
theorem held_move (h : s.locked = true → ∃ x, s.hasLock x = true) (hm : Move s s' es) :
    s'.locked = true → ∃ x, s'.hasLock x = true := by
  intro hlocked
  cases hm with
  | signal ht hstop hlock => exact ⟨none, rfl⟩
  | relock ht hsig hlock => exact ⟨none, rfl⟩
  | @lockAdd t rest cb ht hlife hstop hlock =>
    exact ⟨some cb, by simp [State.hasLock, State.setLife, Life.hasLock]⟩
  | @lockRemove t rest cb ht hlife hlock =>
    exact ⟨some cb, by simp [State.hasLock, State.setLife, Life.hasLock]⟩
  | empty => cases hlocked
  | dequeue => cases hlocked
  | push => cases hlocked
  | unlink => cases hlocked
  | unlinked => cases hlocked
  | _ =>
    obtain ⟨x, hx⟩ := h hlocked
    refine ⟨x, ?_⟩
    cases x <;>
      simp only [State.hasLock, State.setFrames, State.setLife, Function.update_apply] at hx ⊢ <;>
      grind [Life.hasLock, Signal.hasLock]

theorem nodup_move (h : s.queue.Nodup) (hplaced : ∀ cb, s.Placed cb) (hm : Move s s' es) :
    s'.queue.Nodup := by
  cases hm with
  | @push t rest cb ht hlife =>
    refine List.nodup_cons.mpr ⟨fun hin => ?_, h⟩
    have hjoined := ((hplaced cb).queued hin).1
    rw [hlife] at hjoined
    cases hjoined
  | dequeue ht hsig hqueue =>
    rw [hqueue] at h
    exact (List.nodup_cons.mp h).2
  | unlink ht hlife hqueue => exact h.erase _
  | _ => exact h

/-- A destructor waits for a callback that another thread executes. -/
theorem elsewhere_move (hstacks : s.Stacks)
    (h : ∀ t cb, .life cb ∈ s.frames t → s.life cb = .await → s.signallingThread ≠ some t)
    (hm : Move s s' es) :
    ∀ t cb, .life cb ∈ s'.frames t → s'.life cb = .await → s'.signallingThread ≠ some t := by
  intro u cb
  have hcb := h u cb
  cases hm with
  | @signalled t rest ht hsig =>
    -- what is below the call of `__request_stop()` does not wait for a callback
    intro hu hlife hthread
    have hut : u = t := (Option.some.inj hthread).symm
    subst hut
    have hrest : .life cb ∈ rest := by
      have hu : .life cb ∈ s.frames u := hu
      rw [ht] at hu
      exact (List.mem_cons.mp hu).resolve_left (by simp)
    have hwaits : s.life cb = .inlined := hstacks.suspended u .signalling rest (.life cb) ht hrest
    rw [hwaits] at hlife
    cases hlife
  | @removedElsewhere t rest c ht hlife hthread =>
    have hunique (hu : .life c ∈ s.frames u) : u = t := by
      refine hstacks.unique (.life c) u t trivial hu ?_
      rw [ht]
      exact List.mem_cons_self
    simp only [State.setLife, Function.update_apply]
    grind
  | _ =>
    simp only [State.setFrames, State.setLife, Function.update_apply]
    grind

/-- What every run keeps. -/
structure State.Inv (s : State Thread Cb (List Cb)) : Prop where
  calls : s.Stacks
  signalling : s.Signalling
  lock : Exclusive s.hasLock s.locked
  held : s.locked = true → ∃ x, s.hasLock x = true
  push : ∀ cb, s.life cb = .push → s.signal = .idle
  nodup : s.queue.Nodup
  placed : ∀ cb, s.Placed cb
  elsewhere : ∀ t cb, .life cb ∈ s.frames t → s.life cb = .await → s.signallingThread ≠ some t

theorem State.Inv.move (h : s.Inv) (hm : Move s s' es) : s'.Inv where
  calls := stacks_move h.calls h.signalling.requested.mp hm
  signalling := h.signalling.move h.calls h.push hm
  lock := lock_move h.lock hm
  held := held_move h.held hm
  push := push_move h.push h.signalling h.lock hm
  nodup := nodup_move h.nodup h.placed hm
  placed := State.Placed.move h.placed h.calls h.signalling h.nodup h.push hm
  elsewhere := elsewhere_move h.calls h.elsewhere hm

theorem inv_start : (listSystem Thread Cb).start.Inv where
  calls := by
    refine CallStack.inv_nil fun f hf hbusy => ?_
    cases f <;> simp_all [State.busy, listSystem, system, Signal.active, Life.running, Frame.single]
  signalling := by constructor <;> simp [listSystem, system, Signal.last, listRegistry]
  lock := Exclusive.of_nobody (fun x => by cases x <;> rfl) _
  held := by simp [listSystem, system]
  push := by simp [listSystem, system]
  nodup := List.nodup_nil
  placed cb := by
    constructor <;>
      simp [listSystem, system, listRegistry, Signal.about, Life.joined, Life.leaving,
        Signal.during]
  elsewhere := by simp [listSystem, system]

/-- **Every state that a run reaches keeps the invariant.** -/
theorem inv_of_reachable {tr : List (Event Thread Cb)}
    (h : (listSystem Thread Cb).Reachable tr s) : s.Inv := by
  refine Run.invariant (I := fun _ s => s.Inv) inv_start ?_ h
  intro tr s a s' es _ _ hstep hinv
  exact hinv.move (step_moves hstep)

end Invariants

end StopToken
