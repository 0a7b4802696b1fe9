/-
# The references of the callbacks

`Libsg.StopCallbacks` says what the calls do to each other, `Libsg.StopState` what becomes of the
word and of those who have references.  Here they go together: a step of a call makes its access
to the word, a callback that is registered has a reference of its own until its destructor
gives it up, and `stop_token`s and `stop_source`s come and go.

Whoever makes an access has a reference then (`Agrees.can`).  So the state is there while a call
is in progress, in every run in which no token goes while there is another one and no source
(`Agrees.alive`); what is known of the calls is known of these runs.
-/
import Libsg.CountBelow
import Libsg.StopCallbackRuns
import Libsg.StopState

open TransitionSystem IntrusiveList

namespace StopToken

/-! ## The state -/

/-- The calls, the word, and who refers to the state. -/
structure Shared (Thread Cb Q : Type*) where
  calls : State Thread Cb Q
  references : References := {}
  /-- The `stop_token`s, without those that a constructor takes over. -/
  tokens : ℕ := 0
  /-- The constructor of the callback was given a `stop_token&&`. -/
  takesOver : Cb → Bool := fun _ => false

inductive Use (Thread Cb : Type*)
  /-- The calls, with the constructor that is given a `const stop_token&`. -/
  | call (a : Action Thread Cb)
  /-- The constructor that is given a `stop_token&&` is called. -/
  | takeOver (t : Thread) (cb : Cb)
  /-- A token is copied, or got from a source. -/
  | copyToken
  | dropToken
  | copySource
  | dropSource
  deriving DecidableEq, Repr

/-- The constructor has not registered the callback. -/
def Life.constructing : Life → Bool
  | .add | .inlined | .push => true
  | _ => false

/-- The callback has a reference: that of the token it takes over, or its own. -/
def Life.refers (takesOver : Bool) : Life → Bool
  | .add | .inlined | .push => takesOver
  | .added | .registered | .remove | .unlink | .removed | .await => true
  | .unborn | .detached | .destroyed => false

/-! ## The steps -/

section Steps

variable {Thread Cb Q : Type*} [DecidableEq Thread] [DecidableEq Cb]

/-- The access to the word that the next step of the thread makes. -/
def State.access (R : Registry Q Cb) (takesOver : Cb → Bool) (s : State Thread Cb Q) (t : Thread) :
    Option Access :=
  match s.frames t with
  | [] => none
  | .request :: _ => if s.stopRequested then none else some .lockAndSignal
  | .signalling :: _ =>
    match s.signal with
    | .loop => some .unlock
    | .relock => some .lock
    | _ => none
  | .life cb :: _ =>
    match s.life cb with
    | .add => if s.stopRequested then none else if s.possible = false then none else some .lock
    | .push => if takesOver cb then some .unlock else some .unlockAndIncrementTokenRefCount
    | .remove => some .lock
    | .unlink =>
      if R.linked s.queue cb then some .unlockAndDecrementTokenRefCount else some .unlock
    -- `__remove_token_reference()`
    | .removed => if s.signallingThread = some t then some .removeTokenReference else none
    | .await => some .removeTokenReference
    | _ => none

/-- The constructor returns without a registration, and its caller has the token again. -/
def State.givesBack (takesOver : Cb → Bool) (s : State Thread Cb Q) (t : Thread) : Bool :=
  match s.frames t with
  | .life cb :: _ =>
    match s.life cb with
    | .add => takesOver cb && !s.stopRequested && !s.possible
    | .inlined => takesOver cb
    | _ => false
  | _ => false

namespace Shared

def access (R : Registry Q Cb) (w : Shared Thread Cb Q) : Use Thread Cb → Option Access
  | .call (.step t) => w.calls.access R w.takesOver t
  | .copyToken => some .addTokenReference
  | .dropToken => some .removeTokenReference
  | .copySource => some .addSourceReference
  | .dropSource => some .removeSourceReference
  | _ => none

/-- What becomes of the calls. -/
def nextCalls (R : Registry Q Cb) (w : Shared Thread Cb Q) :
    Use Thread Cb → Option (State Thread Cb Q × List (Event Thread Cb))
  -- the last source goes by `dropSource`
  | .call .lastSource => none
  | .call a => StopToken.step R w.calls a
  | .takeOver t cb => StopToken.step R w.calls (.construct t cb)
  | .dropSource =>
    if w.references.sources = 1 then StopToken.step R w.calls .lastSource
    else some (w.calls, [])
  | .copyToken | .dropToken | .copySource => some (w.calls, [])

def nextTokens (w : Shared Thread Cb Q) : Use Thread Cb → ℕ
  | .call (.step t) | .call (.finish t) => w.tokens + (w.calls.givesBack w.takesOver t).toNat
  | .copyToken => w.tokens + 1
  | .takeOver _ _ | .dropToken => w.tokens - 1
  | _ => w.tokens

def nextTakesOver (w : Shared Thread Cb Q) : Use Thread Cb → Cb → Bool
  | .call (.construct _ cb) => Function.update w.takesOver cb false
  | .takeOver _ cb => Function.update w.takesOver cb true
  | _ => w.takesOver

def step (R : Registry Q Cb) (w : Shared Thread Cb Q) (u : Use Thread Cb) :
    Option (Shared Thread Cb Q × List (Event Thread Cb)) :=
  (w.nextCalls R u).map fun r =>
    ({ calls := r.1
       references := (w.access R u).elim w.references w.references.apply
       tokens := w.nextTokens u
       takesOver := w.nextTakesOver u }, r.2)

end Shared

/-- The stop state of the source, with the word that counts the references to it. -/
def sharedSystem (Thread Cb : Type*) [DecidableEq Thread] [DecidableEq Cb] :
    TransitionSystem (Shared Thread Cb (Links Cb)) (Use Thread Cb) (Event Thread Cb) where
  start := { calls := (linksSystem Thread Cb).start }
  step := Shared.step linksRegistry

end Steps

/-! ## Who keeps to the rules -/

section Rules

variable {Thread Cb Q : Type*}

/-- `__request_stop()` before and after it has set the flag. -/
def Frame.requests : Frame Cb → Bool
  | .request | .signalling => true
  | .life _ => false

/-- A call of `__request_stop()` is in progress. -/
def State.requesting (s : State Thread Cb Q) : Prop :=
  ∃ t, ∃ f ∈ s.frames t, f.requests = true

namespace Shared

/-- A constructor reads a token that it does not take over. -/
def lent (w : Shared Thread Cb Q) : Prop :=
  ∃ cb, (w.calls.life cb).constructing = true ∧ w.takesOver cb = false

/-- Who copies, lends or drops a token or a source has it, and drops neither while a call reads
it. -/
def allowed (w : Shared Thread Cb Q) : Use Thread Cb → Prop
  | .call (.construct _ _) => 0 < w.tokens
  | .call _ => True
  | .takeOver _ _ | .dropToken => 0 < w.tokens ∧ (w.lent → 1 < w.tokens)
  | .copyToken => 0 < w.tokens + w.references.sources
  | .copySource => 0 < w.references.sources
  | .dropSource => 0 < w.references.sources ∧ (w.calls.requesting → 1 < w.references.sources)

/-- Users keep to the rules, and neither count runs over. -/
def orderly (w : Shared Thread Cb Q) (u : Use Thread Cb) : Prop :=
  w.allowed u ∧ w.references.tokens + 1 < 2 ^ 31 ∧ w.references.sources + 1 < 2 ^ 31

variable [DecidableEq Thread] [DecidableEq Cb]

/-- No token goes while there is another one and no source. -/
def keepsSource (R : Registry Q Cb) (w : Shared Thread Cb Q) (u : Use Thread Cb) : Prop :=
  ∀ a ∈ w.access R u, w.references.keepsSource a

def inOrder (R : Registry Q Cb) (w : Shared Thread Cb Q) (u : Use Thread Cb) : Prop :=
  w.orderly u ∧ w.keepsSource R u

instance [Fintype Cb] (w : Shared Thread Cb Q) : Decidable w.lent :=
  inferInstanceAs (Decidable (∃ _, _))

instance [Fintype Thread] (s : State Thread Cb Q) : Decidable s.requesting :=
  inferInstanceAs (Decidable (∃ _, _))

instance [Fintype Thread] [Fintype Cb] (w : Shared Thread Cb Q) (u : Use Thread Cb) :
    Decidable (w.allowed u) :=
  match u with
  | .call (.construct _ _) => inferInstanceAs (Decidable (_ < _))
  | .call (.request _) | .call (.destroy _ _) | .call (.step _) | .call (.finish _)
  | .call .lastSource => .isTrue trivial
  | .takeOver _ _ | .dropToken | .dropSource => inferInstanceAs (Decidable (_ ∧ _))
  | .copyToken | .copySource => inferInstanceAs (Decidable (_ < _))

instance [Fintype Thread] [Fintype Cb] (w : Shared Thread Cb Q) (u : Use Thread Cb) :
    Decidable (w.orderly u) :=
  inferInstanceAs (Decidable (_ ∧ _))

instance [Fintype Thread] [Fintype Cb] (R : Registry Q Cb) (w : Shared Thread Cb Q)
    (u : Use Thread Cb) : Decidable (w.inOrder R u) :=
  inferInstanceAs (Decidable (_ ∧ ∀ a ∈ w.access R u, w.references.keepsSource a))

end Shared

end Rules

/-! ## What a call does to the references -/

section Uses

variable {Thread Cb Q : Type*} {s s' : State Thread Cb Q} {o : Cb → Bool}

/-- The calls that go on do not need more than before. -/
structure State.Follows (s s' : State Thread Cb Q) : Prop where
  constructing : ∀ cb, (s'.life cb).constructing = true → (s.life cb).constructing = true
  requesting : s'.requesting → s.requesting ∨ s.possible = true
  possible : s'.possible = s.possible

/-- The same callbacks have references. -/
def State.SameRefs (o : Cb → Bool) (s s' : State Thread Cb Q) : Prop :=
  ∀ cb, (s'.life cb).refers (o cb) = (s.life cb).refers (o cb)

/-- One callback has a reference or not; what the others have stays. -/
structure State.SetsRef (o : Cb → Bool) (s s' : State Thread Cb Q) (cb : Cb) (b : Bool) : Prop where
  before : (s.life cb).refers (o cb) = !b
  after : (s'.life cb).refers (o cb) = b
  others : ∀ c, c ≠ cb → (s'.life c).refers (o c) = (s.life c).refers (o c)

/-- Some call is in progress that has a reference. -/
def State.referenced (o : Cb → Bool) (s : State Thread Cb Q) : Prop :=
  s.requesting ∨ (∃ cb, (s.life cb).refers (o cb) = true) ∨
    ∃ cb, (s.life cb).constructing = true ∧ o cb = false

/-- What a step of a call does: to the word, to the lock, and to the reference of a callback. -/
inductive State.Uses (o : Cb → Bool) (s s' : State Thread Cb Q) : Option Access → Bool → Prop
  | quiet (hrefs : s.SameRefs o s') (hlock : s'.locked = s.locked)
    (hstop : s'.stopRequested = s.stopRequested) : Uses o s s' none false
  | givesBack {cb : Cb} (hrefs : s.SetsRef o s' cb false) (hlock : s'.locked = s.locked)
    (hstop : s'.stopRequested = s.stopRequested) : Uses o s s' none true
  | lock (hrefs : s.SameRefs o s') (hfree : s.locked = false) (hlock : s'.locked = true)
    (hstop : s'.stopRequested = s.stopRequested) (hwho : s.referenced o) :
    Uses o s s' (some .lock) false
  | signal (hrefs : s.SameRefs o s') (hfree : s.locked = false) (hlock : s'.locked = true)
    (hfirst : s.stopRequested = false) (hstop : s'.stopRequested = true) (hwho : s.requesting) :
    Uses o s s' (some .lockAndSignal) false
  | unlock (hrefs : s.SameRefs o s') (hheld : ∃ x, s.hasLock x = true) (hlock : s'.locked = false)
    (hstop : s'.stopRequested = s.stopRequested) : Uses o s s' (some .unlock) false
  | push {cb : Cb} (hrefs : s.SetsRef o s' cb true) (hheld : ∃ x, s.hasLock x = true)
    (hlock : s'.locked = false) (hstop : s'.stopRequested = s.stopRequested) :
    Uses o s s' (some .unlockAndIncrementTokenRefCount) false
  | unlink {cb : Cb} (hrefs : s.SetsRef o s' cb false) (hheld : ∃ x, s.hasLock x = true)
    (hlock : s'.locked = false) (hstop : s'.stopRequested = s.stopRequested) :
    Uses o s s' (some .unlockAndDecrementTokenRefCount) false
  | remove {cb : Cb} (hrefs : s.SetsRef o s' cb false) (hleaving : s.hasLock (some cb) = false)
    (hlock : s'.locked = s.locked) (hstop : s'.stopRequested = s.stopRequested) :
    Uses o s s' (some .removeTokenReference) false

theorem State.requesting_of_frames
    (h : ∀ u, ∀ f ∈ s'.frames u, f.requests = true → s.requesting ∨ s.possible = true) :
    s'.requesting → s.requesting ∨ s.possible = true := by
  rintro ⟨u, f, hf, hrequests⟩
  exact h u f hf hrequests

variable [DecidableEq Thread] [DecidableEq Cb]

omit [DecidableEq Cb] in
/-- The calls of one thread are others. -/
theorem State.requesting_of_update {t : Thread} {fs : List (Frame Cb)}
    (hframes : s'.frames = Function.update s.frames t fs)
    (hfs : ∀ f ∈ fs, f.requests = true → s.requesting ∨ s.possible = true) :
    s'.requesting → s.requesting ∨ s.possible = true := by
  refine State.requesting_of_frames fun u f hf hrequests => ?_
  rw [hframes, CallStack.Inv.mem_update] at hf
  rcases hf with ⟨-, hf⟩ | ⟨-, hf⟩
  · exact hfs f hf hrequests
  · exact .inl ⟨u, f, hf, hrequests⟩

omit [DecidableEq Thread] in
/-- A constructor or a destructor goes on to where the callback has a reference if it had one. -/
theorem State.sameRefs_update {cb : Cb} {l : Life} (hlife : s'.life = Function.update s.life cb l)
    (hl : l.refers (o cb) = (s.life cb).refers (o cb)) : s.SameRefs o s' := by
  intro c
  rcases eq_or_ne c cb with rfl | hc
  · rw [hlife, Function.update_self, hl]
  · rw [hlife, Function.update_of_ne hc]

omit [DecidableEq Thread] in
theorem State.setsRef_update {cb : Cb} {l : Life} {b : Bool}
    (hlife : s'.life = Function.update s.life cb l) (hbefore : (s.life cb).refers (o cb) = !b)
    (hafter : l.refers (o cb) = b) : s.SetsRef o s' cb b where
  before := hbefore
  after := by rw [hlife, Function.update_self, hafter]
  others c hc := by rw [hlife, Function.update_of_ne hc]

omit [DecidableEq Thread] in
theorem State.constructing_update {cb : Cb} {l : Life}
    (hlife : s'.life = Function.update s.life cb l)
    (hl : l.constructing = true → (s.life cb).constructing = true) (c : Cb) :
    (s'.life c).constructing = true → (s.life c).constructing = true := by
  rcases eq_or_ne c cb with rfl | hc
  · rw [hlife, Function.update_self]
    exact hl
  · rw [hlife, Function.update_of_ne hc]
    exact id

omit [DecidableEq Thread] [DecidableEq Cb] in
/-- The calls in progress stay. -/
theorem State.requesting_keep (hframes : s'.frames = s.frames) :
    s'.requesting → s.requesting ∨ s.possible = true :=
  State.requesting_of_frames fun u f hf hrequests => .inl ⟨u, f, hframes ▸ hf, hrequests⟩

omit [DecidableEq Cb] in
/-- The innermost call returns. -/
theorem State.requesting_pop {t : Thread} {f : Frame Cb} {rest : List (Frame Cb)}
    (ht : s.frames t = f :: rest) (hframes : s'.frames = Function.update s.frames t rest) :
    s'.requesting → s.requesting ∨ s.possible = true := by
  refine State.requesting_of_update hframes fun g hg hrequests => .inl ⟨t, g, ?_, hrequests⟩
  rw [ht]
  exact List.mem_cons_of_mem f hg

omit [DecidableEq Cb] in
/-- A constructor or a destructor is called. -/
theorem State.requesting_push {t : Thread} {cb : Cb}
    (hframes : s'.frames = Function.update s.frames t (.life cb :: s.frames t)) :
    s'.requesting → s.requesting ∨ s.possible = true := by
  refine State.requesting_of_update hframes fun g hg hrequests => ?_
  rcases List.mem_cons.mp hg with rfl | hg
  · cases hrequests
  · exact .inl ⟨t, g, hg, hrequests⟩

section Follows

variable {t : Thread} {f : Frame Cb} {rest : List (Frame Cb)} {cb : Cb} {l : Life}

omit [DecidableEq Thread] [DecidableEq Cb] in
/-- The call of `__request_stop()` goes on. -/
theorem State.Follows.signal_keep (hlife : s'.life = s.life) (hframes : s'.frames = s.frames)
    (hpossible : s'.possible = s.possible) : s.Follows s' where
  constructing cb := by
    rw [hlife]
    exact id
  requesting := State.requesting_keep hframes
  possible := hpossible

omit [DecidableEq Cb] in
/-- The call of `__request_stop()` returns. -/
theorem State.Follows.signal_pop (hlife : s'.life = s.life) (ht : s.frames t = f :: rest)
    (hframes : s'.frames = Function.update s.frames t rest)
    (hpossible : s'.possible = s.possible) : s.Follows s' where
  constructing cb := by
    rw [hlife]
    exact id
  requesting := State.requesting_pop ht hframes
  possible := hpossible

omit [DecidableEq Thread] in
/-- A constructor or a destructor goes on. -/
theorem State.Follows.life_keep (hlife : s'.life = Function.update s.life cb l)
    (hl : l.constructing = true → (s.life cb).constructing = true)
    (hframes : s'.frames = s.frames) (hpossible : s'.possible = s.possible) : s.Follows s' where
  constructing := State.constructing_update hlife hl
  requesting := State.requesting_keep hframes
  possible := hpossible

/-- A constructor or a destructor returns. -/
theorem State.Follows.life_pop (hlife : s'.life = Function.update s.life cb l)
    (hl : l.constructing = false) (ht : s.frames t = f :: rest)
    (hframes : s'.frames = Function.update s.frames t rest)
    (hpossible : s'.possible = s.possible) : s.Follows s' where
  constructing := State.constructing_update hlife (by simp [hl])
  requesting := State.requesting_pop ht hframes
  possible := hpossible

end Follows

variable {R : Registry Q Cb} {t : Thread} {rest : List (Frame Cb)} {es : List (Event Thread Cb)}

theorem uses_of_signalStep (ht : s.frames t = .signalling :: rest)
    (h : s.signalStep R t rest = some (s', es)) :
    s.Follows s' ∧ s.Uses o s' (s.access R o t) (s.givesBack o t) := by
  have hrequesting : s.requesting := ⟨t, .signalling, by rw [ht]; exact List.mem_cons_self, rfl⟩
  rw [State.signalStep] at h
  simp only [State.access, State.givesBack, ht]
  cases hsig : s.signal <;> simp only [hsig, reduceCtorEq] at h ⊢
  case signalled =>
    cases h
    exact ⟨.signal_keep rfl rfl rfl, .quiet (fun _ => rfl) rfl rfl⟩
  case loop =>
    have hheld : ∃ x, s.hasLock x = true := ⟨none, by rw [State.hasLock, hsig]; rfl⟩
    -- the lock is given up whether there is a callback or not
    cases hpop : R.pop s.queue with
    | none =>
      simp only [hpop] at h
      cases h
      exact ⟨.signal_pop rfl ht rfl rfl,
        .unlock (fun _ => rfl) hheld rfl rfl⟩
    | some r =>
      simp only [hpop] at h
      cases h
      exact ⟨.signal_keep rfl rfl rfl,
        .unlock (fun _ => rfl) hheld rfl rfl⟩
  case execute cb anyMore =>
    cases h
    exact ⟨.signal_keep rfl rfl rfl, .quiet (fun _ => rfl) rfl rfl⟩
  case executed cb anyMore =>
    cases hremoved : s.isRemoved <;> cases anyMore <;>
      simp only [hremoved, if_true, Bool.false_eq_true, if_false] at h <;> cases h
    · exact ⟨.signal_pop rfl ht rfl rfl, .quiet (fun _ => rfl) rfl rfl⟩
    · exact ⟨.signal_keep rfl rfl rfl, .quiet (fun _ => rfl) rfl rfl⟩
    · exact ⟨.signal_pop rfl ht rfl rfl, .quiet (fun _ => rfl) rfl rfl⟩
    · exact ⟨.signal_keep rfl rfl rfl, .quiet (fun _ => rfl) rfl rfl⟩
  case relock =>
    cases hlock : s.locked <;> simp only [hlock, if_true, Bool.false_eq_true, if_false,
      reduceCtorEq] at h
    cases h
    exact ⟨.signal_keep rfl rfl rfl,
      .lock (fun _ => rfl) hlock rfl rfl (.inl hrequesting)⟩

omit [DecidableEq Thread] [DecidableEq Cb] in
/-- A constructor has the token it takes over, or reads another one. -/
theorem State.referenced_of_constructing {cb : Cb} (hlife : (s.life cb).constructing = true) :
    s.referenced o := by
  cases ho : o cb with
  | false => exact .inr (.inr ⟨cb, hlife, ho⟩)
  | true =>
    refine .inr (.inl ⟨cb, ?_⟩)
    cases hl : s.life cb <;> simp_all [Life.constructing, Life.refers]

omit [DecidableEq Thread] in
/-- What a constructor does that returns without a registration. -/
theorem State.uses_of_detached {cb : Cb} (hconstructing : (s.life cb).constructing = true)
    (hlife : s'.life = Function.update s.life cb .detached) (hlock : s'.locked = s.locked)
    (hstop : s'.stopRequested = s.stopRequested) : s.Uses o s' none (o cb) := by
  have hbefore : (s.life cb).refers (o cb) = o cb := by
    cases hl : s.life cb <;> simp_all [Life.constructing, Life.refers]
  cases ho : o cb with
  | false =>
    rw [ho] at hbefore
    exact .quiet (State.sameRefs_update hlife (by rw [ho, hbefore]; rfl)) hlock hstop
  | true =>
    rw [ho] at hbefore
    exact .givesBack (State.setsRef_update hlife (by rw [ho, hbefore]; rfl) rfl) hlock hstop

theorem uses_of_lifeStep {cb : Cb} (ht : s.frames t = .life cb :: rest)
    (h : s.lifeStep R t rest cb = some (s', es)) :
    s.Follows s' ∧ s.Uses o s' (s.access R o t) (s.givesBack o t) := by
  rw [State.lifeStep] at h
  simp only [State.access, State.givesBack, ht]
  cases hlife : s.life cb <;> simp only [hlife, reduceCtorEq] at h ⊢
  case add =>
    have hconstructing : (s.life cb).constructing = true := by rw [hlife]; rfl
    cases hstop : s.stopRequested <;> simp only [hstop, if_true, Bool.false_eq_true, if_false] at h ⊢
    · -- without a source left the callback is not registered, and the word is only read
      cases hpossible : s.possible <;> simp only [hpossible, if_true, Bool.true_eq_false,
        if_false] at h ⊢
      · cases h
        refine ⟨.life_pop rfl rfl ht rfl rfl, ?_⟩
        simp only [Bool.not_false, Bool.and_true]
        exact State.uses_of_detached hconstructing rfl rfl rfl
      · cases hlock : s.locked <;> simp only [hlock, if_true, Bool.false_eq_true, if_false,
          reduceCtorEq] at h
        cases h
        refine ⟨.life_keep rfl (fun _ => hconstructing) rfl hpossible.symm, ?_⟩
        simp only [Bool.not_false, Bool.not_true, Bool.and_true, Bool.and_false]
        exact .lock (State.sameRefs_update rfl (by rw [hlife]; rfl)) hlock rfl hstop.symm
          (State.referenced_of_constructing hconstructing)
    · cases h
      refine ⟨.life_keep rfl (fun _ => hconstructing) rfl rfl, ?_⟩
      simp only [Bool.not_true, Bool.and_false, Bool.false_and]
      exact .quiet (State.sameRefs_update rfl (by rw [hlife]; rfl)) rfl rfl
  case push =>
    cases h
    have hheld : ∃ x, s.hasLock x = true := ⟨some cb, by rw [State.hasLock, hlife]; rfl⟩
    refine ⟨.life_keep rfl (by simp [Life.constructing]) rfl rfl, ?_⟩
    -- the reference is a new one, or that of the token
    cases ho : o cb
    · exact .push (State.setsRef_update rfl (by rw [hlife, ho]; rfl) rfl) hheld rfl rfl
    · exact .unlock (State.sameRefs_update rfl (by rw [hlife, ho]; rfl)) hheld rfl rfl
  case added =>
    cases h
    exact ⟨.life_pop rfl rfl ht rfl rfl,
      .quiet (State.sameRefs_update rfl (by rw [hlife]; rfl)) rfl rfl⟩
  case remove =>
    cases hlock : s.locked <;> simp only [hlock, if_true, Bool.false_eq_true, if_false,
      reduceCtorEq] at h
    cases h
    exact ⟨.life_keep rfl (by simp [Life.constructing]) rfl rfl,
      .lock (State.sameRefs_update rfl (by rw [hlife]; rfl)) hlock rfl rfl
        (.inr (.inl ⟨cb, by rw [hlife]; rfl⟩))⟩
  case unlink =>
    have hheld : ∃ x, s.hasLock x = true := ⟨some cb, by rw [State.hasLock, hlife]; rfl⟩
    split at h <;> cases h
    · next hlinked =>
      refine ⟨.life_pop rfl rfl ht rfl rfl, ?_⟩
      rw [if_pos hlinked]
      exact .unlink (State.setsRef_update rfl (by rw [hlife]; rfl) rfl) hheld rfl rfl
    · next hlinked =>
      refine ⟨.life_keep rfl (by simp [Life.constructing]) rfl rfl, ?_⟩
      rw [if_neg hlinked]
      exact .unlock (State.sameRefs_update rfl (by rw [hlife]; rfl)) hheld rfl rfl
  case removed =>
    split at h <;> cases h
    · next hthread =>
      refine ⟨.life_pop rfl rfl ht rfl rfl, ?_⟩
      rw [if_pos hthread]
      exact .remove (State.setsRef_update rfl (by rw [hlife]; rfl) rfl)
        (by rw [State.hasLock, hlife]; rfl) rfl rfl
    · next hthread =>
      refine ⟨.life_keep rfl (by simp [Life.constructing]) rfl rfl, ?_⟩
      rw [if_neg hthread]
      exact .quiet (State.sameRefs_update rfl (by rw [hlife]; rfl)) rfl rfl
  case await =>
    split at h <;> cases h
    exact ⟨.life_pop rfl rfl ht rfl rfl,
      .remove (State.setsRef_update rfl (by rw [hlife]; rfl) rfl)
        (by rw [State.hasLock, hlife]; rfl) rfl rfl⟩

end Uses

/-! ## The word and the calls -/

section Agreement

variable {Thread Cb Q : Type*}

/-- The lock is held by a call that is in progress. -/
structure State.Locking (s : State Thread Cb Q) : Prop where
  flagged : ∀ x, s.hasLock x = true → s.locked = true
  held : s.locked = true → ∃ x, s.hasLock x = true
  signalling : s.signal.active = true → ∃ t, .signalling ∈ s.frames t

namespace Shared

/-- The word says what the calls go by; each token is a `stop_token`'s or a callback's; and what a
call reads is there. -/
structure Agrees (w : Shared Thread Cb Q) : Prop where
  counted : w.references.Counted
  right : w.references.Right
  holder : w.references.holder = w.calls.locked
  stopped : w.references.stopped = w.calls.stopRequested
  possible : w.calls.possible = decide (0 < w.references.sources)
  callbacks : ∃ n, Numbers (fun cb => (w.calls.life cb).refers (w.takesOver cb)) n ∧
    w.references.tokens = n + w.tokens
  lent : w.lent → 0 < w.tokens
  requesting : w.calls.requesting → 0 < w.references.sources

variable {w : Shared Thread Cb Q} {s' : State Thread Cb Q} {a : Access}

/-- Who has a reference is counted. -/
theorem Agrees.referenced (h : w.Agrees) (hwho : w.calls.referenced w.takesOver) :
    0 < w.references.tokens + w.references.sources := by
  obtain ⟨n, hnumbers, htokens⟩ := h.callbacks
  rcases hwho with hrequesting | ⟨cb, hcb⟩ | hlent
  · have := h.requesting hrequesting
    omega
  · have := hnumbers.pos hcb
    omega
  · have := h.lent hlent
    omega

/-- Who has the lock has a reference. -/
theorem Agrees.holder_refers (h : w.Agrees) (hlocking : w.calls.Locking)
    (hholder : w.references.holder = true) :
    w.calls.requesting ∨
      (∃ cb, (w.calls.life cb).hasLock = true ∧ (w.calls.life cb).refers (w.takesOver cb) = true) ∨
      w.lent := by
  rw [h.holder] at hholder
  obtain ⟨x, hx⟩ := hlocking.held hholder
  cases x with
  | none =>
    have hactive : w.calls.signal.active = true := by
      rw [State.hasLock] at hx
      cases hsig : w.calls.signal <;> simp_all [Signal.hasLock, Signal.active]
    obtain ⟨t, ht⟩ := hlocking.signalling hactive
    exact .inl ⟨t, _, ht, rfl⟩
  | some cb =>
    rw [State.hasLock] at hx
    cases hlife : w.calls.life cb <;> simp only [hlife, Life.hasLock, Bool.false_eq_true] at hx
    case push =>
      cases ho : w.takesOver cb with
      | false => exact .inr (.inr ⟨cb, by rw [hlife]; rfl, ho⟩)
      | true => exact .inr (.inl ⟨cb, by rw [hlife]; rfl, by rw [hlife, ho]; rfl⟩)
    case unlink => exact .inr (.inl ⟨cb, by rw [hlife]; rfl, by rw [hlife]; rfl⟩)

/-- Who has the lock makes an access that gives it up. -/
theorem Agrees.holder_of_hasLock (h : w.Agrees) (hlocking : w.calls.Locking)
    (hheld : ∃ x, w.calls.hasLock x = true) : w.references.holder = true := by
  obtain ⟨x, hx⟩ := hheld
  rw [h.holder]
  exact hlocking.flagged x hx

/-- **Whoever makes an access can.** -/
theorem Agrees.can_of_uses (h : w.Agrees) (hlocking : w.calls.Locking)
    (hfew : w.references.tokens + 1 < 2 ^ 31) {access : Option Access} {b : Bool}
    (huses : w.calls.Uses w.takesOver s' access b) :
    ∀ a ∈ access, w.references.can a = true := by
  obtain ⟨n, hnumbers, htokens⟩ := h.callbacks
  have hunlocked (hfree : w.calls.locked = false) : isLocked w.references.word = false := by
    rw [h.counted.isLocked, h.holder, hfree]
  intro a ha
  cases huses with
  | quiet => cases ha
  | givesBack => cases ha
  | lock _ hfree _ _ hwho =>
    cases ha
    exact decide_eq_true ⟨h.referenced hwho, hunlocked hfree⟩
  | signal _ hfree _ hfirst _ hwho =>
    cases ha
    refine decide_eq_true ⟨h.requesting hwho, hunlocked hfree, ?_⟩
    rw [h.counted.isStopRequested, h.stopped, hfirst]
  | unlock _ hheld =>
    cases ha
    exact h.holder_of_hasLock hlocking hheld
  | push _ hheld =>
    cases ha
    exact decide_eq_true ⟨h.holder_of_hasLock hlocking hheld, hfew⟩
  | unlink hrefs hheld =>
    cases ha
    have hpos := hnumbers.pos hrefs.before
    exact decide_eq_true ⟨h.holder_of_hasLock hlocking hheld, by omega⟩
  | @remove cb hrefs hleaving =>
    cases ha
    have hpos := hnumbers.pos hrefs.before
    -- the lock is another call's, and so is the reference that goes with it
    refine decide_eq_true ⟨by omega, fun hholder => ?_⟩
    rcases h.holder_refers hlocking hholder with hrequesting | ⟨c, hlock, hc⟩ | hlent
    · have := h.requesting hrequesting
      omega
    · have hne : c ≠ cb := by
        rintro rfl
        rw [State.hasLock, hlock] at hleaving
        cases hleaving
      have := hnumbers.one_lt hc hrefs.before hne
      omega
    · have := h.lent hlent
      omega

/-- The access that somebody can make leaves the counts and the deletion right. -/
theorem Agrees.apply (h : w.Agrees) (hcan : w.references.can a = true)
    (hkeeps : w.references.keepsSource a) :
    (w.references.apply a).Counted ∧ (w.references.apply a).Right := by
  have hstep := References.step_of_can hcan
  exact ⟨h.counted.step hstep, (h.right.step h.counted hstep).mpr hkeeps⟩

/-- The calls go on. -/
theorem Agrees.next (h : w.Agrees) (hfollows : w.calls.Follows s') {r' : References} {tokens' : ℕ}
    (hright : r'.Counted ∧ r'.Right) (hholder : r'.holder = s'.locked)
    (hstopped : r'.stopped = s'.stopRequested) (hsources : r'.sources = w.references.sources)
    (hmore : w.tokens ≤ tokens')
    (hcallbacks : ∃ n, Numbers (fun cb => (s'.life cb).refers (w.takesOver cb)) n ∧
      r'.tokens = n + tokens') : Agrees ⟨s', r', tokens', w.takesOver⟩ where
  counted := hright.1
  right := hright.2
  holder := hholder
  stopped := hstopped
  possible := by
    show s'.possible = decide (0 < r'.sources)
    rw [hfollows.possible, h.possible, hsources]
  callbacks := hcallbacks
  lent := by
    rintro ⟨cb, hcb, ho⟩
    exact Nat.lt_of_lt_of_le (h.lent ⟨cb, hfollows.constructing cb hcb, ho⟩) hmore
  requesting hrequesting := by
    show 0 < r'.sources
    rw [hsources]
    rcases hfollows.requesting hrequesting with hbefore | hpossible
    · exact h.requesting hbefore
    · simpa [h.possible] using hpossible

variable [DecidableEq Cb]

/-- **A step of a call.** -/
theorem Agrees.uses (h : w.Agrees) (hlocking : w.calls.Locking)
    (hfew : w.references.tokens + 1 < 2 ^ 31) (hfollows : w.calls.Follows s')
    {access : Option Access} {b : Bool} (huses : w.calls.Uses w.takesOver s' access b)
    (hkeeps : ∀ a ∈ access, w.references.keepsSource a) :
    Agrees ⟨s', access.elim w.references w.references.apply, w.tokens + b.toNat, w.takesOver⟩ := by
  have hcan := h.can_of_uses hlocking hfew huses
  have happly (a : Access) (ha : a ∈ access) := h.apply (hcan a ha) (hkeeps a ha)
  obtain ⟨n, hnumbers, htokens⟩ := h.callbacks
  have hpos {cb : Cb} (hrefs : w.calls.SetsRef w.takesOver s' cb false) : 0 < n :=
    hnumbers.pos hrefs.before
  cases huses with
  | quiet hrefs hlock hstop =>
    exact h.next hfollows ⟨h.counted, h.right⟩ (h.holder.trans hlock.symm)
      (h.stopped.trans hstop.symm) rfl (Nat.le_refl _) ⟨n, hnumbers.congr hrefs, htokens⟩
  | givesBack hrefs hlock hstop =>
    -- the token is its caller's again
    refine h.next hfollows ⟨h.counted, h.right⟩ (h.holder.trans hlock.symm)
      (h.stopped.trans hstop.symm) rfl (Nat.le_succ _)
      ⟨n - 1, hnumbers.lose hrefs.before hrefs.after hrefs.others, ?_⟩
    have := hpos hrefs
    show w.references.tokens = n - 1 + (w.tokens + 1)
    omega
  | lock hrefs hfree hlock hstop =>
    exact h.next hfollows (happly _ rfl) hlock.symm (h.stopped.trans hstop.symm) rfl
      (Nat.le_refl _) ⟨n, hnumbers.congr hrefs, htokens⟩
  | signal hrefs hfree hlock hfirst hstop =>
    exact h.next hfollows (happly _ rfl) hlock.symm hstop.symm rfl (Nat.le_refl _)
      ⟨n, hnumbers.congr hrefs, htokens⟩
  | unlock hrefs hheld hlock hstop =>
    exact h.next hfollows (happly _ rfl) hlock.symm (h.stopped.trans hstop.symm) rfl
      (Nat.le_refl _) ⟨n, hnumbers.congr hrefs, htokens⟩
  | push hrefs hheld hlock hstop =>
    refine h.next hfollows (happly _ rfl) hlock.symm (h.stopped.trans hstop.symm) rfl
      (Nat.le_refl _) ⟨n + 1, hnumbers.gain hrefs.before hrefs.after hrefs.others, ?_⟩
    show w.references.tokens + 1 = n + 1 + w.tokens
    omega
  | unlink hrefs hheld hlock hstop =>
    refine h.next hfollows (happly _ rfl) hlock.symm (h.stopped.trans hstop.symm) rfl
      (Nat.le_refl _) ⟨n - 1, hnumbers.lose hrefs.before hrefs.after hrefs.others, ?_⟩
    have := hpos hrefs
    show w.references.tokens - 1 = n - 1 + w.tokens
    omega
  | remove hrefs hleaving hlock hstop =>
    refine h.next hfollows (happly _ rfl) (h.holder.trans hlock.symm) (h.stopped.trans hstop.symm)
      rfl (Nat.le_refl _) ⟨n - 1, hnumbers.lose hrefs.before hrefs.after hrefs.others, ?_⟩
    have := hpos hrefs
    show w.references.tokens - 1 = n - 1 + w.tokens
    omega

end Shared

end Agreement

/-! ## The steps of all -/

section All

variable {Thread Cb Q : Type*} [DecidableEq Thread] [DecidableEq Cb] {R : Registry Q Cb}
variable {s s' : State Thread Cb Q} {es : List (Event Thread Cb)}

/-- **What a call does to the references**, unless it is a constructor that is called. -/
theorem uses_of_call {w : Shared Thread Cb Q} {a : Action Thread Cb}
    (ha : ∀ t cb, a ≠ .construct t cb) (h : w.nextCalls R (.call a) = some (s', es)) :
    w.calls.Follows s' ∧ w.nextTakesOver (.call a) = w.takesOver ∧
      ∃ b : Bool, w.calls.Uses w.takesOver s' (w.access R (.call a)) b ∧
        w.nextTokens (.call a) = w.tokens + b.toNat := by
  cases a <;> simp only [Shared.nextCalls, reduceCtorEq] at h
  case construct t cb => exact absurd rfl (ha t cb)
  case request t =>
    -- the caller has a source, so the stop is possible
    rw [step] at h
    split at h <;> cases h
    next hcode =>
      refine ⟨⟨fun _ => id, ?_, rfl⟩, rfl, false, .quiet (fun _ => rfl) rfl rfl, rfl⟩
      refine State.requesting_of_update rfl fun f hf hrequests => ?_
      rcases List.mem_cons.mp hf with rfl | hf
      · exact .inr hcode.2
      · exact .inl ⟨t, f, hf, hrequests⟩
  case destroy t cb =>
    rw [step] at h
    split at h
    · cases hlife : w.calls.life cb <;> simp only [hlife, reduceCtorEq] at h <;> cases h
      · exact ⟨⟨State.constructing_update rfl (by simp [Life.constructing]),
          State.requesting_push rfl, rfl⟩, rfl, false,
          .quiet (State.sameRefs_update rfl (by rw [hlife]; rfl)) rfl rfl, rfl⟩
      · exact ⟨.life_keep rfl (by simp [Life.constructing]) rfl rfl, rfl, false,
          .quiet (State.sameRefs_update rfl (by rw [hlife]; rfl)) rfl rfl, rfl⟩
    · cases h
  case step t =>
    suffices hboth : w.calls.Follows s' ∧
        w.calls.Uses w.takesOver s' (w.calls.access R w.takesOver t)
          (w.calls.givesBack w.takesOver t) from ⟨hboth.1, rfl, _, hboth.2, rfl⟩
    rw [step] at h
    cases ht : w.calls.frames t with
    | nil => simp [ht] at h
    | cons f rest =>
      cases f <;> simp only [ht] at h
      case request =>
        have hrequesting : w.calls.requesting :=
          ⟨t, .request, by rw [ht]; exact List.mem_cons_self, rfl⟩
        simp only [State.access, State.givesBack, ht]
        cases hstop : w.calls.stopRequested <;> simp only [hstop, if_true, Bool.false_eq_true,
          if_false] at h ⊢
        · cases hlock : w.calls.locked <;> simp only [hlock, if_true, Bool.false_eq_true, if_false,
            reduceCtorEq] at h
          cases h
          refine ⟨⟨fun _ => id, fun _ => .inl hrequesting, rfl⟩, ?_⟩
          exact .signal (fun _ => rfl) hlock rfl hstop rfl hrequesting
        · cases h
          exact ⟨.signal_pop rfl ht rfl rfl, .quiet (fun _ => rfl) rfl rfl⟩
      case signalling => exact uses_of_signalStep ht h
      case life cb => exact uses_of_lifeStep ht h
  case finish t =>
    suffices hboth : w.calls.Follows s' ∧
        w.calls.Uses w.takesOver s' none (w.calls.givesBack w.takesOver t) from
      ⟨hboth.1, rfl, _, hboth.2, rfl⟩
    rw [step] at h
    cases ht : w.calls.frames t with
    | nil => simp [ht] at h
    | cons f rest =>
      cases f <;> simp only [ht, reduceCtorEq] at h
      case signalling =>
        cases hsig : w.calls.signal <;> simp only [hsig, reduceCtorEq] at h
        cases h
        simp only [State.givesBack, ht]
        exact ⟨.signal_keep rfl rfl rfl, .quiet (fun _ => rfl) rfl rfl⟩
      case life cb =>
        split at h <;> cases h
        next hlife =>
          simp only [State.givesBack, ht, hlife]
          exact ⟨.life_pop rfl rfl ht rfl rfl,
            State.uses_of_detached (by rw [hlife]; rfl) rfl rfl rfl⟩

namespace Shared

variable {w w' : Shared Thread Cb Q} {u : Use Thread Cb}

/-- **A constructor is called**, with a token that it takes over or does not. -/
theorem Agrees.construct (h : w.Agrees) {t : Thread} {cb : Cb} {b : Bool}
    (hstep : StopToken.step R w.calls (.construct t cb) = some (s', es)) (hsome : 0 < w.tokens)
    (hother : b = true → w.lent → 1 < w.tokens) :
    Agrees ⟨s', w.references, w.tokens - b.toNat, Function.update w.takesOver cb b⟩ := by
  rw [StopToken.step] at hstep
  split at hstep <;> cases hstep
  next hcode =>
  obtain ⟨n, hnumbers, htokens⟩ := h.callbacks
  have hbefore : (w.calls.life cb).refers (w.takesOver cb) = false := by rw [hcode.2]; rfl
  have hafter : (Function.update w.calls.life cb .add cb).refers
      (Function.update w.takesOver cb b cb) = b := by
    rw [Function.update_self, Function.update_self]
    rfl
  have hothers (c : Cb) (hc : c ≠ cb) : (Function.update w.calls.life cb .add c).refers
      (Function.update w.takesOver cb b c) = (w.calls.life c).refers (w.takesOver c) := by
    rw [Function.update_of_ne hc, Function.update_of_ne hc]
  refine ⟨h.counted, h.right, h.holder, h.stopped, h.possible, ?_, ?_, fun hrequesting => ?_⟩
  · cases b with
    | false =>
      refine ⟨n, hnumbers.congr fun c => ?_, htokens⟩
      rcases eq_or_ne c cb with rfl | hc
      · exact hafter.trans hbefore.symm
      · exact hothers c hc
    | true =>
      -- the token is the callback's from now on
      refine ⟨n + 1, hnumbers.gain hbefore hafter hothers, ?_⟩
      show w.references.tokens = n + 1 + (w.tokens - 1)
      omega
  · rintro ⟨c, hc, ho⟩
    cases b with
    | false => exact hsome
    | true =>
      have hne : c ≠ cb := by
        rintro rfl
        simp at ho
      have hlent : w.lent := by
        refine ⟨c, ?_, ?_⟩
        · simpa [State.setFrames, State.setLife, hne] using hc
        · simpa [hne] using ho
      have := hother rfl hlent
      show 0 < w.tokens - 1
      omega
  · rcases State.requesting_push (s := w.calls) rfl hrequesting with hbefore | hpossible
    · exact h.requesting hbefore
    · simpa [h.possible] using hpossible

/-- **Whoever makes an access can**, users included. -/
theorem Agrees.can (h : w.Agrees) (hlocking : w.calls.Locking) (horderly : w.orderly u)
    (hstep : (w.step R u).isSome = true) : ∀ a ∈ w.access R u, w.references.can a = true := by
  obtain ⟨hallowed, hfew, hfewSources⟩ := horderly
  obtain ⟨n, hnumbers, htokens⟩ := h.callbacks
  cases u with
  | call a =>
    by_cases ha : ∃ t cb, a = .construct t cb
    · obtain ⟨t, cb, rfl⟩ := ha
      intro a ha
      cases ha
    · rw [Shared.step, Option.isSome_map] at hstep
      obtain ⟨⟨s', es⟩, hcalls⟩ := Option.isSome_iff_exists.mp hstep
      obtain ⟨-, -, b, huses, -⟩ :=
        uses_of_call (fun t cb hconstruct => ha ⟨t, cb, hconstruct⟩) hcalls
      exact h.can_of_uses hlocking hfew huses
  | takeOver t cb =>
    intro a ha
    cases ha
  | copyToken =>
    rintro a ⟨⟩
    have hallowed : 0 < w.tokens + w.references.sources := hallowed
    exact decide_eq_true ⟨by omega, hfew⟩
  | dropToken =>
    rintro a ⟨⟩
    obtain ⟨hsome, hlent⟩ := hallowed
    -- whoever holds the lock keeps a source or a token that is not this one
    refine decide_eq_true ⟨by omega, fun hholder => ?_⟩
    rcases h.holder_refers hlocking hholder with hrequesting | ⟨c, -, hc⟩ | hborrowed
    · have := h.requesting hrequesting
      omega
    · have := hnumbers.pos hc
      omega
    · have := hlent hborrowed
      omega
  | copySource =>
    rintro a ⟨⟩
    exact decide_eq_true ⟨hallowed, hfewSources⟩
  | dropSource =>
    rintro a ⟨⟩
    obtain ⟨hsome, hrequests⟩ := hallowed
    refine decide_eq_true ⟨hsome, fun hholder => ?_⟩
    rcases h.holder_refers hlocking hholder with hrequesting | ⟨c, -, hc⟩ | hborrowed
    · have := hrequests hrequesting
      omega
    · have := hnumbers.pos hc
      omega
    · have := h.lent hborrowed
      omega

omit [DecidableEq Thread] [DecidableEq Cb] in
/-- A user copies or drops a token or a source, and the calls stay. -/
theorem Agrees.user (h : w.Agrees) {r' : References} {tokens' : ℕ}
    (hright : r'.Counted ∧ r'.Right) (hlife : s'.life = w.calls.life)
    (hframes : s'.frames = w.calls.frames) (hholder : r'.holder = s'.locked)
    (hstopped : r'.stopped = s'.stopRequested) (hpossible : s'.possible = decide (0 < r'.sources))
    (htokens : r'.tokens + w.tokens = w.references.tokens + tokens')
    (hlent : w.lent → 0 < tokens') (hrequesting : w.calls.requesting → 0 < r'.sources) :
    Agrees ⟨s', r', tokens', w.takesOver⟩ where
  counted := hright.1
  right := hright.2
  holder := hholder
  stopped := hstopped
  possible := hpossible
  callbacks := by
    obtain ⟨n, hnumbers, hbefore⟩ := h.callbacks
    refine ⟨n, ?_, ?_⟩
    · rw [hlife]
      exact hnumbers
    · show r'.tokens = n + tokens'
      omega
  lent := by
    rintro ⟨cb, hcb, ho⟩
    exact hlent ⟨cb, by rwa [← hlife], ho⟩
  requesting := by
    rintro ⟨t, f, hf, hrequests⟩
    exact hrequesting ⟨t, f, by rwa [← hframes], hrequests⟩

/-- **A step of a call or of a user.** -/
theorem Agrees.step (h : w.Agrees) (hlocking : w.calls.Locking) (hC : w.inOrder R u)
    (hstep : w.step R u = some (w', es)) : w'.Agrees := by
  obtain ⟨horderly, hkeeps⟩ := hC
  have hcan := h.can (R := R) hlocking horderly (by rw [hstep]; rfl)
  have happly (a : Access) (ha : a ∈ w.access R u) := h.apply (hcan a ha) (hkeeps a ha)
  obtain ⟨hallowed, hfew, -⟩ := horderly
  obtain ⟨⟨s', es⟩, hcalls, hw'⟩ := Option.map_eq_some_iff.mp hstep
  cases hw'
  cases u with
  | call a =>
    -- a constructor that is called has made no access yet
    by_cases ha : ∃ t cb, a = .construct t cb
    · obtain ⟨t, cb, rfl⟩ := ha
      exact h.construct (R := R) (b := false) hcalls hallowed (by simp)
    · obtain ⟨hfollows, htakesOver, b, huses, htokens⟩ :=
        uses_of_call (fun t cb hconstruct => ha ⟨t, cb, hconstruct⟩) hcalls
      rw [htakesOver, htokens]
      exact h.uses hlocking hfew hfollows huses hkeeps
  | takeOver t cb => exact h.construct (R := R) (b := true) hcalls hallowed.1 fun _ => hallowed.2
  | copyToken =>
    cases hcalls
    have htokens : w.references.tokens + 1 + w.tokens = w.references.tokens + (w.tokens + 1) := by
      omega
    exact h.user (happly _ rfl) rfl rfl h.holder h.stopped h.possible htokens
      (fun _ => Nat.succ_pos _) h.requesting
  | dropToken =>
    cases hcalls
    obtain ⟨hsome, hlent⟩ := hallowed
    have htokens : w.references.tokens - 1 + w.tokens = w.references.tokens + (w.tokens - 1) := by
      obtain ⟨n, -, hbefore⟩ := h.callbacks
      omega
    exact h.user (happly _ rfl) rfl rfl h.holder h.stopped h.possible htokens
      (fun hborrowed => Nat.sub_pos_of_lt (hlent hborrowed)) h.requesting
  | copySource =>
    cases hcalls
    have hsome : 0 < w.references.sources := hallowed
    have hpossible : w.calls.possible = decide (0 < w.references.sources + 1) := by
      rw [h.possible, decide_eq_true hsome, decide_eq_true (Nat.succ_pos _)]
    exact h.user (happly _ rfl) rfl rfl ((References.apply_holder _ _).trans h.holder)
      ((References.apply_stopped _ _).trans h.stopped) hpossible
      (congrArg (· + w.tokens) (References.apply_tokens _ _)) h.lent fun _ => Nat.succ_pos _
  | dropSource =>
    obtain ⟨hsome, hrequests⟩ := hallowed
    have hsources (hrequesting : w.calls.requesting) : 0 < w.references.sources - 1 :=
      Nat.sub_pos_of_lt (hrequests hrequesting)
    simp only [nextCalls] at hcalls
    split at hcalls <;> cases hcalls
    · next hone =>
      have hnone : false = decide (0 < w.references.sources - 1) := by rw [hone]; rfl
      exact h.user (happly _ rfl) rfl rfl h.holder h.stopped hnone rfl h.lent hsources
    · next hmore =>
      have hpossible : w.calls.possible = decide (0 < w.references.sources - 1) := by
        rw [h.possible, decide_eq_true hsome, decide_eq_true (by omega)]
      exact h.user (happly _ rfl) rfl rfl h.holder h.stopped hpossible rfl h.lent hsources

end Shared

end All

/-! ## The stop state is there -/

section Runs

variable {Thread Cb : Type*} [DecidableEq Thread] [DecidableEq Cb]
variable {w w' : Shared Thread Cb (Links Cb)} {u : Use Thread Cb} {tr es : List (Event Thread Cb)}
variable {C : Shared Thread Cb (Links Cb) → Use Thread Cb → Prop}

/-- The calls of a run make a run. -/
theorem calls_reachable (h : (sharedSystem Thread Cb).Run C tr w) :
    (linksSystem Thread Cb).Reachable tr w.calls := by
  refine Run.project (π := Shared.calls) (f := id) ?_ h
  refine ⟨rfl, rfl, fun _ _ => rfl, ?_⟩
  intro tr w u w' es _ _ hstep
  obtain ⟨⟨s', es⟩, hcalls, hw'⟩ := Option.map_eq_some_iff.mp hstep
  cases hw'
  cases u with
  | call a =>
    refine .inr ⟨a, trivial, ?_⟩
    cases a with
    | lastSource => cases hcalls
    | _ => exact hcalls
  | takeOver t cb => exact .inr ⟨.construct t cb, trivial, hcalls⟩
  | dropSource =>
    simp only [Shared.nextCalls] at hcalls
    split at hcalls
    · exact .inr ⟨.lastSource, trivial, hcalls⟩
    · cases hcalls
      exact .inl ⟨rfl, rfl⟩
  | _ =>
    cases hcalls
    exact .inl ⟨rfl, rfl⟩

/-- What is known over lists of the lock and of the calls. -/
theorem locking_of_reachable {c : State Thread Cb (Links Cb)}
    (h : (linksSystem Thread Cb).Reachable tr c) : c.Locking ∧ c.Stacks := by
  obtain ⟨s, hs, hlinked⟩ := Run.lockstep links_lockstep h
  obtain ⟨l, rfl⟩ : ∃ l, c = s.withQueue l := ⟨c.queue, hlinked.same⟩
  have hinv := inv_of_reachable hs
  exact ⟨⟨hinv.lock.flagged, hinv.held, hinv.calls.somewhere .signalling trivial⟩,
    hinv.calls.unchanged rfl rfl rfl⟩

theorem agrees_start : (sharedSystem Thread Cb).start.Agrees where
  counted := .start
  right := .start
  holder := rfl
  stopped := rfl
  possible := rfl
  callbacks := ⟨0, Numbers.zero fun _ => rfl, rfl⟩
  lent := by
    rintro ⟨cb, hcb, -⟩
    cases hcb
  requesting := by
    rintro ⟨t, f, hf, -⟩
    cases hf

/-- **The word agrees with the calls in every run in which users keep to the rules and no token
goes while there is another one and no source.** -/
theorem agrees_of_run (h : (sharedSystem Thread Cb).Run (Shared.inOrder linksRegistry) tr w) :
    w.Agrees := by
  refine Run.invariant (I := fun _ w => w.Agrees) agrees_start ?_ h
  intro tr w u w' es hrun hC hstep ih
  exact ih.step (locking_of_reachable (calls_reachable hrun)).1 hC hstep

omit [DecidableEq Thread] [DecidableEq Cb] in
/-- Who has a reference finds the state there. -/
theorem Shared.Agrees.alive (h : w.Agrees) (hwho : w.calls.referenced w.takesOver) :
    w.references.deletions = 0 := by
  have hsome := h.referenced hwho
  rw [h.right.deletions, if_neg (by omega)]

omit [DecidableEq Thread] [DecidableEq Cb] in
/-- Every call in progress has a reference. -/
theorem State.Stacks.referenced {Q : Type*} {s : State Thread Cb Q} {o : Cb → Bool} (h : s.Stacks)
    {t : Thread} (ht : s.frames t ≠ []) : s.referenced o := by
  obtain ⟨f, hf⟩ := List.exists_mem_of_ne_nil _ ht
  have hbusy := h.inProgress f t hf
  cases f with
  | request => exact .inl ⟨t, _, hf, rfl⟩
  | signalling => exact .inl ⟨t, _, hf, rfl⟩
  | life cb =>
    by_cases hconstructing : (s.life cb).constructing = true
    · exact State.referenced_of_constructing hconstructing
    · refine .inr (.inl ⟨cb, ?_⟩)
      have hbusy : (s.life cb).running = true := hbusy
      cases hlife : s.life cb <;> simp_all [Life.running, Life.constructing, Life.refers]

/-- **The next step keeps the deletion right if and only if no token goes with it while there is
another one and no source.** -/
theorem right_iff_keepsSource (h : w.Agrees) (hlocking : w.calls.Locking) (horderly : w.orderly u)
    (hstep : (sharedSystem Thread Cb).step w u = some (w', es)) :
    w'.references.Right ↔ w.keepsSource linksRegistry u := by
  have hcan := h.can (R := linksRegistry) hlocking horderly (by
    show ((sharedSystem Thread Cb).step w u).isSome = true
    rw [hstep]
    rfl)
  obtain ⟨r, -, hw'⟩ := Option.map_eq_some_iff.mp hstep
  cases hw'
  show ((w.access linksRegistry u).elim w.references w.references.apply).Right ↔ _
  rw [Shared.keepsSource]
  cases haccess : w.access linksRegistry u with
  | none => exact iff_of_true h.right fun a ha => by cases ha
  | some a =>
    have hcan : w.references.can a = true := hcan a haccess
    have hright := h.right.step h.counted (References.step_of_can hcan)
    refine hright.trans ⟨fun hkeeps b hb => ?_, fun hkeeps => hkeeps a rfl⟩
    cases hb
    exact hkeeps

/-- Two callbacks have been executed, and the source has gone; another thread has come to the end of
the destructor of one. -/
def lateDestructor : List (Use Bool Bool) :=
  .copyToken ::
    ([.construct false false, .step false, .step false, .step false,
      .construct false true, .step false, .step false, .step false,
      .request true, .step true, .step true, .step true, .step true, .finish true,
      .step true, .step true, .step true, .step true, .finish true, .step true] :
      List (Action Bool Bool)).map .call ++ .dropSource ::
    ([.destroy false false, .step false, .step false, .step false] : List (Action Bool Bool)).map
      .call

/-- It deletes the state, while there are a token and a callback that is registered. -/
theorem deleted_early : ∃ tr w w',
    (sharedSystem Bool Bool).Run (Shared.inOrder linksRegistry) tr w ∧
    w.orderly (.call (.step false)) ∧
    (sharedSystem Bool Bool).step w (.call (.step false)) = some (w', [.destroyed false false]) ∧
    w'.references.deletions = 1 ∧ w'.tokens = 1 ∧ w'.calls.life true = .registered := by
  have hrun := run_exec (M := sharedSystem Bool Bool) (C := Shared.inOrder linksRegistry)
    (l := lateDestructor) (by decide +kernel) (by decide +kernel)
  exact ⟨_, _, _, hrun, by decide +kernel, rfl, by decide +kernel, by decide +kernel,
    by decide +kernel⟩

end Runs

/-! ## The results -/

section Results

variable {Thread Cb : Type*} [DecidableEq Thread] [DecidableEq Cb]
variable {w : Shared Thread Cb (Links Cb)} {tr : List (Event Thread Cb)}

/-- **While a call is in progress the stop state is there.  One call of `__request_stop()` at most
returns `true`.  No callback is executed twice, or after it has been destroyed; one that is
registered has been executed when that call has returned; and one that is destroyed while it is
executed is destroyed by the thread that executes it.** -/
theorem executed_once (h : (sharedSystem Thread Cb).Run (Shared.inOrder linksRegistry) tr w) :
    (∀ t, w.calls.frames t ≠ [] → w.references.deletions = 0) ∧
    firsts tr ≤ 1 ∧ ∀ cb,
      executions tr cb ≤ 1 ∧
      (∀ tr₁ tr₂ t, tr = tr₁ ++ .executes t cb :: tr₂ → ∀ u, .destroyed u cb ∉ tr₁) ∧
      (firsts tr = 1 → w.calls.life cb = .registered →
        ∃ t, .executes t cb ∈ tr ∧ .executed t cb ∈ tr) ∧
      (∀ t u, .destroyed t cb ∈ tr → .executes u cb ∈ tr → .executed u cb ∈ tr ∨ u = t) := by
  have hcalls := calls_reachable h
  refine ⟨fun t ht => ?_, calls_once hcalls⟩
  exact (agrees_of_run h).alive ((locking_of_reachable hcalls).2.referenced ht)

/-- Two callbacks are registered; the first to be executed destroys itself, and another thread
destroys the second while it is executed.  Then the token goes, and the source. -/
def twoCallbacks : List (Use Bool Bool) :=
  .copyToken ::
    ([.construct false false, .step false, .step false, .step false,
      .construct false true, .step false, .step false, .step false,
      .request true, .step true, .step true, .step true, .step true,
      .destroy true true, .step true, .step true, .step true, .finish true,
      .step true, .step true, .step true, .step true,
      .destroy false false, .step false, .step false, .step false,
      .finish true, .step true, .step false] : List (Action Bool Bool)).map .call ++
    [.dropToken, .dropSource]

theorem executed_once_two : ∃ tr w,
    (sharedSystem Bool Bool).Run (Shared.inOrder linksRegistry) tr w ∧ firsts tr = 1 ∧
    executions tr true = 1 ∧ executions tr false = 1 ∧ w.references.deletions = 1 ∧
    firsts tr ≤ 1 := by
  have hrun := run_exec (M := sharedSystem Bool Bool) (C := Shared.inOrder linksRegistry)
    (l := twoCallbacks) (by decide +kernel) (by decide +kernel)
  exact ⟨_, _, hrun, by decide +kernel, by decide +kernel, by decide +kernel, by decide +kernel,
    (executed_once hrun).2.1⟩

/-- **No step touches a stop state or a callback that is not there**, and the list holds none: the
state is there while a call is in progress or a callback is registered, it goes with the last
reference, and the word says what the calls go by.  What a step does not touch stays as it is.
The flag on the stack of `__request_stop()` is only written while that call is there, inside the
callback it executes.  The next step keeps the deletion right if and only if no token goes with it
while there is another one and no source. -/
theorem touches_alive (h : (sharedSystem Thread Cb).Run (Shared.inOrder linksRegistry) tr w)
    (a : Action Thread Cb) :
    ((∀ t, w.calls.frames t ≠ [] → w.references.deletions = 0) ∧
      (∀ cb, w.calls.life cb = .registered → w.references.deletions = 0) ∧
      w.references.Right ∧ isLocked w.references.word = w.calls.locked ∧
      isStopRequested w.references.word = w.calls.stopRequested ∧
      isStopRequestable w.references.word = (w.calls.stopRequested || w.calls.possible)) ∧
    (∀ cb ∈ w.calls.touched a, (w.calls.life cb).alive = true) ∧
    (∀ w' es, (sharedSystem Thread Cb).step w (.call a) = some (w', es) →
      ∀ cb, cb ∉ w.calls.touched a → w'.calls.fields cb = w.calls.fields cb) ∧
    (w.calls.writesFlag a = true → w.calls.signal.waiting = true) ∧
    (∃ callbacks, w.calls.queue.Represents callbacks ∧
      ∀ cb ∈ callbacks, (w.calls.life cb).alive = true) ∧
    ∀ u w' es, w.orderly u → (sharedSystem Thread Cb).step w u = some (w', es) →
      (w'.references.Right ↔ w.keepsSource linksRegistry u) := by
  have hcalls := calls_reachable h
  have hagrees := agrees_of_run h
  obtain ⟨hlocking, hstacks⟩ := locking_of_reachable hcalls
  obtain ⟨htouched, hframe, hflag, hlist⟩ := calls_touch hcalls a
  have hrequestable : isStopRequestable w.references.word =
      (w.calls.stopRequested || w.calls.possible) := by
    rw [hagrees.counted.isStopRequestable, hagrees.stopped, hagrees.possible]
  refine ⟨⟨fun t ht => hagrees.alive (hstacks.referenced ht), fun cb hcb => ?_, hagrees.right,
    hagrees.counted.isLocked.trans hagrees.holder,
    hagrees.counted.isStopRequested.trans hagrees.stopped, hrequestable⟩, htouched,
    fun w' es hstep => ?_, hflag, hlist,
    fun u w' es horderly hstep => right_iff_keepsSource hagrees hlocking horderly hstep⟩
  · exact hagrees.alive (.inr (.inl ⟨cb, by rw [hcb]; rfl⟩))
  · obtain ⟨⟨s', es⟩, hnext, hw'⟩ := Option.map_eq_some_iff.mp hstep
    cases hw'
    cases a with
    | lastSource => cases hnext
    | _ => exact hframe _ _ hnext

/-- The first callback is taken from the list: it and the second are touched. -/
theorem touches_alive_first : ∃ tr w,
    (sharedSystem Bool Bool).Run (Shared.inOrder linksRegistry) tr w ∧
    w.calls.touched (.step true) = [true, false] ∧
    ∀ cb ∈ w.calls.touched (.step true), (w.calls.life cb).alive = true := by
  have hrun := run_exec (M := sharedSystem Bool Bool) (C := Shared.inOrder linksRegistry)
    (l := twoCallbacks.take 12) (by decide +kernel) (by decide +kernel)
  exact ⟨_, _, hrun, by decide +kernel, (touches_alive hrun (.step true)).2.1⟩

/-- **While a call is in progress, the stop state is there, and some thread goes on or executes a
callback.** -/
theorem never_stuck (h : (sharedSystem Thread Cb).Run (Shared.inOrder linksRegistry) tr w)
    {t : Thread} (ht : w.calls.frames t ≠ []) :
    w.references.deletions = 0 ∧
    ∃ u, ((sharedSystem Thread Cb).step w (.call (.step u))).isSome = true ∨
      ((sharedSystem Thread Cb).step w (.call (.finish u))).isSome = true := by
  have hcalls := calls_reachable h
  refine ⟨(agrees_of_run h).alive ((locking_of_reachable hcalls).2.referenced ht), ?_⟩
  obtain ⟨u, hu⟩ := calls_goOn hcalls ht
  refine ⟨u, ?_⟩
  show (Option.map _ _).isSome = true ∨ (Option.map _ _).isSome = true
  rw [Option.isSome_map, Option.isSome_map]
  exact hu

/-- The second callback is destroyed while it is executed: its destructor waits. -/
theorem never_stuck_waiting : ∃ tr w,
    (sharedSystem Bool Bool).Run (Shared.inOrder linksRegistry) tr w ∧
    (sharedSystem Bool Bool).step w (.call (.step false)) = none ∧ w.references.deletions = 0 ∧
    ∃ u, ((sharedSystem Bool Bool).step w (.call (.step u))).isSome = true ∨
      ((sharedSystem Bool Bool).step w (.call (.finish u))).isSome = true := by
  have hrun := run_exec (M := sharedSystem Bool Bool) (C := Shared.inOrder linksRegistry)
    (l := twoCallbacks.take 27) (by decide +kernel) (by decide +kernel)
  exact ⟨_, _, hrun, by decide +kernel, never_stuck hrun (t := false) (by decide +kernel)⟩

end Results

end StopToken
