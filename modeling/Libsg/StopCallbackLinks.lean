/-
# The callbacks in their intrusive list

`stop_token.hpp`: the callbacks that are registered are in a list through their own
`__next_` and `__prev_`, and `__prev_` is null when a callback is not in it.
`linksRegistry` is that list, and what is proved over lists holds of it, since the two
go together step by step (`links_lockstep`).

A callback is an object that somebody else destroys.  `touched` are the callbacks that a
step reads or writes, and `touched_alive` says that they are there.
-/
import Libsg.IntrusiveList
import Libsg.StopCallbackInvariant

open TransitionSystem IntrusiveList

namespace StopToken

section WithQueue

variable {Thread Cb Q Q' : Type*} (s : State Thread Cb Q) (queue : Q')

def State.withQueue : State Thread Cb Q' :=
  { s with queue }

@[simp] theorem stopRequested_withQueue :
    (s.withQueue queue).stopRequested = s.stopRequested := rfl

@[simp] theorem locked_withQueue : (s.withQueue queue).locked = s.locked := rfl

@[simp] theorem possible_withQueue : (s.withQueue queue).possible = s.possible := rfl

@[simp] theorem signallingThread_withQueue :
    (s.withQueue queue).signallingThread = s.signallingThread := rfl

@[simp] theorem isRemoved_withQueue : (s.withQueue queue).isRemoved = s.isRemoved := rfl

@[simp] theorem callbackFinishedExecuting_withQueue :
    (s.withQueue queue).callbackFinishedExecuting = s.callbackFinishedExecuting := rfl

@[simp] theorem signal_withQueue : (s.withQueue queue).signal = s.signal := rfl

@[simp] theorem life_withQueue : (s.withQueue queue).life = s.life := rfl

@[simp] theorem frames_withQueue : (s.withQueue queue).frames = s.frames := rfl

@[simp] theorem queue_withQueue : (s.withQueue queue).queue = queue := rfl

end WithQueue

section Links

variable {Thread Cb : Type*} [DecidableEq Thread] [DecidableEq Cb]

/-- The list of callbacks through their own links. -/
def linksRegistry : Registry (Links Cb) Cb where
  empty := {}
  push := Links.pushFront
  pop := Links.popFront
  linked l cb := (l.prev cb).isSome
  unlink := Links.unlink

/-- The stop state of the source. -/
def linksSystem (Thread Cb : Type*) [DecidableEq Thread] [DecidableEq Cb] :
    TransitionSystem (State Thread Cb (Links Cb)) (Action Thread Cb) (Event Thread Cb) :=
  system linksRegistry


/-- The two states are the same but for the list, whose links make up the callbacks in it,
and a callback that is there is in the list when it points back. -/
structure Linked (c : State Thread Cb (Links Cb)) (s : State Thread Cb (List Cb)) : Prop where
  same : c = s.withQueue c.queue
  represents : c.queue.Represents s.queue
  linked : ∀ cb, s.life cb ≠ .destroyed → (c.queue.prev cb ≠ none ↔ cb ∈ s.queue)

variable {c : State Thread Cb (Links Cb)} {s s' : State Thread Cb (List Cb)}

omit [DecidableEq Thread] [DecidableEq Cb] in
/-- The list is left alone. -/
theorem Linked.keep {c' : State Thread Cb (Links Cb)} (h : Linked c s)
    (hlife : ∀ cb, s'.life cb ≠ .destroyed → s.life cb ≠ .destroyed)
    (hlinks : c'.queue = c.queue) (hqueue : s'.queue = s.queue)
    (hsame : c' = s'.withQueue c'.queue) : Linked c' s' := by
  refine ⟨hsame, ?_, fun cb hcb => ?_⟩ <;> rw [hlinks, hqueue]
  · exact h.represents
  · exact h.linked cb (hlife cb hcb)

omit [DecidableEq Thread] in
/-- And the constructor or the destructor of a callback goes on. -/
theorem Linked.life {c' : State Thread Cb (Links Cb)} {cb : Cb} {l : Life} (h : Linked c s)
    (hcb : s.life cb ≠ .destroyed) (hlife : s'.life = Function.update s.life cb l)
    (hlinks : c'.queue = c.queue) (hqueue : s'.queue = s.queue)
    (hsame : c' = s'.withQueue c'.queue) : Linked c' s' := by
  refine h.keep (fun b hb => ?_) hlinks hqueue hsame
  by_cases hbc : b = cb
  · rwa [hbc]
  · rwa [hlife, Function.update_of_ne hbc] at hb

omit [DecidableEq Thread] [DecidableEq Cb] in
/-- The list has changed. -/
theorem Linked.changed {c' : State Thread Cb (Links Cb)}
    (hrep : c'.queue.Represents s'.queue)
    (hout : ∀ cb, s'.life cb ≠ .destroyed → cb ∉ s'.queue → c'.queue.prev cb = none)
    (hsame : c' = s'.withQueue c'.queue) : Linked c' s' := by
  refine ⟨hsame, hrep, fun cb hcb => ⟨fun hprev => ?_, hrep.chain.prev_ne_none⟩⟩
  by_contra hin
  exact hprev (hout cb hcb hin)

omit [DecidableEq Thread] [DecidableEq Cb] in
theorem Linked.prev_eq_none (h : Linked c s) {cb : Cb} (hcb : s.life cb ≠ .destroyed)
    (hout : cb ∉ s.queue) : c.queue.prev cb = none := by
  by_contra hprev
  exact hout ((h.linked cb hcb).mp hprev)

variable {l : Links Cb} {t : Thread} {rest : List (Frame Cb)}

theorem signalStep_links (h : Linked (s.withQueue l) s) :
    Matches Linked ((s.withQueue l).signalStep linksRegistry t rest)
      (s.signalStep listRegistry t rest) := by
  rw [State.signalStep, State.signalStep, signal_withQueue]
  cases hsig : s.signal with
  | idle => exact .refused
  | returned => exact .refused
  | signalled => exact .made (h.keep (fun _ => id) rfl rfl rfl)
  | loop =>
    have hrep := h.represents
    cases hqueue : s.queue with
    | nil =>
      rw [hqueue] at hrep
      have hpop : l.popFront = none := Links.popFront_nil hrep
      simp only [linksRegistry, queue_withQueue, hpop, listRegistry]
      exact .made (h.keep (fun _ => id) rfl hqueue.symm rfl)
    | cons cb as =>
      rw [hqueue] at hrep
      obtain ⟨l', hpop, hrep', hcb, hother⟩ := Links.popFront_represents hrep
      rw [queue_withQueue] at hpop
      simp only [linksRegistry, queue_withQueue, hpop, listRegistry]
      refine .made (.changed hrep' (fun b hb hout => ?_) rfl)
      by_cases hbc : b = cb
      · rw [hbc]
        exact hcb
      · refine (hother b hbc hout).trans (h.prev_eq_none hb ?_)
        rw [hqueue]
        exact fun hin => (List.mem_cons.mp hin).elim hbc hout
  | execute cb anyMore => exact .made (h.keep (fun _ => id) rfl rfl rfl)
  | executing cb anyMore => exact .refused
  | executed cb anyMore =>
    cases hremoved : s.isRemoved <;> cases anyMore <;>
      simp only [isRemoved_withQueue, hremoved, if_true, Bool.false_eq_true, if_false] <;>
      exact .made (h.keep (fun _ => id) rfl rfl rfl)
  | relock =>
    cases hlock : s.locked <;>
      simp only [locked_withQueue, hlock, if_true, Bool.false_eq_true, if_false]
    · exact .made (h.keep (fun _ => id) rfl rfl rfl)
    · exact .refused

theorem lifeStep_links {cb : Cb} (h : Linked (s.withQueue l) s) (hinv : s.Inv) :
    Matches Linked ((s.withQueue l).lifeStep linksRegistry t rest cb)
      (s.lifeStep listRegistry t rest cb) := by
  rw [State.lifeStep, State.lifeStep, life_withQueue]
  cases hlife : s.life cb with
  | unborn => exact .refused
  | add =>
    have hcb : s.life cb ≠ .destroyed := by simp [hlife]
    cases hstop : s.stopRequested <;> cases hpossible : s.possible <;> cases hlock : s.locked <;>
      simp only [stopRequested_withQueue, possible_withQueue, locked_withQueue, hstop, hpossible,
        hlock, if_true, Bool.false_eq_true, Bool.true_eq_false, if_false] <;>
      first
        | exact .refused
        | exact .made (h.life hcb rfl rfl rfl rfl)
  | inlined => exact .refused
  | push =>
    have hnew : cb ∉ s.queue := by
      intro hin
      have hjoined := ((hinv.placed cb).queued hin).1
      rw [hlife] at hjoined
      cases hjoined
    refine .made (.changed (Links.pushFront_represents h.represents hnew) (fun b hb hout => ?_) rfl)
    obtain ⟨hbc, hout⟩ := not_or.mp (mt List.mem_cons.mpr hout)
    refine (Links.pushFront_prev_of_ne l hbc fun hhead => ?_).trans (h.prev_eq_none ?_ hout)
    · exact hout (h.represents.head_mem hhead)
    · simpa [State.setLife, hbc] using hb
  | added =>
    have hcb : s.life cb ≠ .destroyed := by simp [hlife]
    exact .made (h.life hcb rfl rfl rfl rfl)
  | registered => exact .refused
  | detached => exact .refused
  | remove =>
    have hcb : s.life cb ≠ .destroyed := by simp [hlife]
    cases hlock : s.locked <;>
      simp only [locked_withQueue, hlock, if_true, Bool.false_eq_true, if_false]
    · exact .made (h.life hcb rfl rfl rfl rfl)
    · exact .refused
  | unlink =>
    have hcb : s.life cb ≠ .destroyed := by simp [hlife]
    by_cases hin : cb ∈ s.queue
    · obtain ⟨slot, hslot⟩ := Option.ne_none_iff_exists'.mp ((h.linked cb hcb).mpr hin)
      rw [queue_withQueue] at hslot
      simp only [linksRegistry, listRegistry, queue_withQueue, hslot, hin, Option.isSome_some,
        decide_true, if_true]
      refine .made (.changed (Links.unlink_represents h.represents hin) (fun b hb hout => ?_) rfl)
      have hbc : b ≠ cb := by
        rintro rfl
        simp [State.setFrames, State.setLife] at hb
      have hout : b ∉ s.queue := fun hb => hout ((List.mem_erase_of_ne hbc).mpr hb)
      refine (Links.unlink_prev_of_ne hslot fun hnext => ?_).trans (h.prev_eq_none ?_ hout)
      · exact hout (h.represents.chain.next_mem hin hnext)
      · simpa [State.setFrames, State.setLife, hbc] using hb
    · have hprev : l.prev cb = none := h.prev_eq_none hcb hin
      simp only [linksRegistry, listRegistry, queue_withQueue, hprev, hin, Option.isSome_none,
        decide_false, Bool.false_eq_true, if_false]
      exact .made (h.life hcb rfl rfl rfl rfl)
  | removed =>
    have hcb : s.life cb ≠ .destroyed := by simp [hlife]
    by_cases hthread : s.signallingThread = some t <;>
      simp only [signallingThread_withQueue, hthread, if_true, if_false] <;>
      exact .made (h.life hcb rfl rfl rfl rfl)
  | await =>
    have hcb : s.life cb ≠ .destroyed := by simp [hlife]
    cases hfinished : s.callbackFinishedExecuting cb <;>
      simp only [callbackFinishedExecuting_withQueue, hfinished, if_true, Bool.false_eq_true,
        if_false]
    · exact .refused
    · exact .made (h.life hcb rfl rfl rfl rfl)
  | destroyed => exact .refused

theorem step_links (h : Linked (s.withQueue l) s) (hinv : s.Inv) (a : Action Thread Cb) :
    Matches Linked (step linksRegistry (s.withQueue l) a) (step listRegistry s a) := by
  have hcode (t : Thread) : (s.withQueue l).userCode t = s.userCode t := rfl
  cases a with
  | request t =>
    rw [step, step, hcode, possible_withQueue]
    split
    · exact .made (h.keep (fun _ => id) rfl rfl rfl)
    · exact .refused
  | construct t cb =>
    rw [step, step, hcode, life_withQueue]
    by_cases hc : s.userCode t = true ∧ s.life cb = .unborn
    · rw [if_pos hc, if_pos hc]
      exact .made (h.life (by simp [hc.2]) rfl rfl rfl rfl)
    · rw [if_neg hc, if_neg hc]
      exact .refused
  | destroy t cb =>
    rw [step, step, hcode, life_withQueue]
    by_cases hc : s.userCode t = true
    · rw [if_pos hc, if_pos hc]
      cases hlife : s.life cb with
      | registered => exact .made (h.life (by simp [hlife]) rfl rfl rfl rfl)
      | detached => exact .made (h.life (by simp [hlife]) rfl rfl rfl rfl)
      | _ => exact .refused
    · rw [if_neg hc, if_neg hc]
      exact .refused
  | step t =>
    rw [step, step, frames_withQueue]
    cases ht : s.frames t with
    | nil => exact .refused
    | cons f rest =>
      cases f with
      | request =>
        cases hstop : s.stopRequested <;> cases hlock : s.locked <;>
          simp only [stopRequested_withQueue, locked_withQueue, hstop, hlock, if_true,
            Bool.false_eq_true, if_false] <;>
          first
            | exact .refused
            | exact .made (h.keep (fun _ => id) rfl rfl rfl)
      | signalling => exact signalStep_links h
      | life cb => exact lifeStep_links h hinv
  | finish t =>
    rw [step, step, frames_withQueue]
    cases ht : s.frames t with
    | nil => exact .refused
    | cons f rest =>
      cases f with
      | request => exact .refused
      | signalling =>
        cases hsig : s.signal <;> simp only [signal_withQueue, hsig] <;>
          first
            | exact .refused
            | exact .made (h.keep (fun _ => id) rfl rfl rfl)
      | life cb =>
        by_cases hlife : s.life cb = .inlined <;>
          simp only [life_withQueue, hlife, if_true, if_false]
        · exact .made (h.life (by simp [hlife]) rfl rfl rfl rfl)
        · exact .refused
  | lastSource => exact .made (h.keep (fun _ => id) rfl rfl rfl)

/-- **The list through the links goes together with the list.** -/
theorem links_lockstep : Lockstep (linksSystem Thread Cb) (listSystem Thread Cb) Linked where
  start := ⟨rfl, Links.represents_nil, fun cb _ => by
    simp [linksSystem, listSystem, system, linksRegistry, listRegistry]⟩
  step tr c s a hreach h := by
    obtain ⟨l, rfl⟩ : ∃ l, c = s.withQueue l := ⟨c.queue, h.same⟩
    exact step_links h (inv_of_reachable hreach) a

/-! ## What the steps touch -/

/-- The callback is there. -/
def Life.alive : Life → Bool
  | .unborn | .destroyed => false
  | _ => true

/-- The callbacks that a step reads or writes, or whose function it calls. -/
def State.touched (c : State Thread Cb (Links Cb)) : Action Thread Cb → List Cb
  | .step t =>
    match c.frames t with
    | .signalling :: _ =>
      match c.signal with
      | .loop => c.queue.touchedByPop
      | .execute cb _ => [cb]
      | .executed cb _ => if c.isRemoved then [] else [cb]
      | _ => []
    | .life cb :: _ =>
      match c.life cb with
      | .add => if c.stopRequested then [cb] else []
      | .push => c.queue.touchedByPush cb
      | .unlink => c.queue.touchedByUnlink cb
      | .removed => if c.signallingThread = some t then [cb] else []
      | .await => [cb]
      | _ => []
    | _ => []
  | _ => []

/-- The fields of a callback. -/
def State.fields (c : State Thread Cb (Links Cb)) (cb : Cb) :
    Option Cb × Option (Slot Cb) × Bool × Bool :=
  (c.queue.next cb, c.queue.prev cb, c.isRemovedSet cb, c.callbackFinishedExecuting cb)

/-- The step writes the flag on the stack of the call of `__request_stop()`. -/
def State.writesFlag (c : State Thread Cb (Links Cb)) : Action Thread Cb → Bool
  | .step t =>
    match c.frames t with
    | .life cb :: _ => c.life cb = .removed ∧ c.signallingThread = some t ∧ c.isRemovedSet cb
    | _ => false
  | _ => false

theorem Life.alive_of_running {l : Life} (h : l.running = true) : l.alive = true := by
  cases l <;> first | rfl | cases h

theorem Life.alive_of_joined {l : Life} (h : l.joined = true) : l.alive = true := by
  cases l <;> first | rfl | cases h

theorem Life.alive_of_leaving {l : Life} (h : l.leaving = true) : l.alive = true := by
  cases l <;> first | rfl | cases h

omit [DecidableEq Thread] in
/-- A callback that the call of `__request_stop()` is about is there, unless it has been
destroyed while it was executed. -/
theorem State.Placed.alive {cb : Cb} (h : s.Placed cb) (habout : s.signal.about cb = true)
    (hremoved : s.signal.during cb = true → s.isRemoved = false) :
    (s.life cb).alive = true := by
  rcases (h.taken habout).2 with hjoined | hleaving | ⟨hdestroyed, hduring⟩
  · exact Life.alive_of_joined hjoined
  · exact Life.alive_of_leaving hleaving
  · have hgone := (h.removed hduring).mpr hdestroyed
    rw [hremoved hduring] at hgone
    cases hgone

theorem touched_alive (h : Linked c s) (hinv : s.Inv) {a : Action Thread Cb} {cb : Cb}
    (hcb : cb ∈ c.touched a) : (s.life cb).alive = true := by
  obtain ⟨l, rfl⟩ : ∃ l, c = s.withQueue l := ⟨c.queue, h.same⟩
  have hqueued {b : Cb} (hb : b ∈ s.queue) : (s.life b).alive = true :=
    Life.alive_of_joined ((hinv.placed b).queued hb).1
  cases a with
  | step t =>
    rw [State.touched, frames_withQueue] at hcb
    cases ht : s.frames t with
    | nil => simp [ht] at hcb
    | cons f rest =>
      have htop : f ∈ s.frames t := by
        rw [ht]
        exact List.mem_cons_self
      have hbusy := hinv.calls.inProgress f t htop
      rw [ht] at hcb
      cases f with
      | request => cases hcb
      | signalling =>
        simp only [signal_withQueue] at hcb
        cases hsig : s.signal <;> simp only [hsig, List.not_mem_nil] at hcb
        case loop => exact hqueued (h.represents.touchedByPop hcb)
        case execute b anyMore =>
          rw [List.mem_singleton.mp hcb]
          exact (hinv.placed b).alive (by simp [hsig, Signal.about]) (by simp [hsig, Signal.during])
        case executed b anyMore =>
          cases hremoved : s.isRemoved <;> simp [hremoved] at hcb
          rw [hcb]
          exact (hinv.placed b).alive (by simp [hsig, Signal.about]) fun _ => hremoved
      | life b =>
        have hb : (s.life b).alive = true := Life.alive_of_running hbusy
        simp only [life_withQueue] at hcb
        cases hlife : s.life b <;> simp only [hlife, List.not_mem_nil] at hcb
        case add =>
          cases hstop : s.stopRequested <;> simp [hstop] at hcb
          rwa [hcb]
        case push =>
          rcases h.represents.touchedByPush hcb with rfl | hcb
          · exact hb
          · exact hqueued hcb
        case unlink =>
          have hin := (h.linked b (by simp [hlife])).mp
          rcases h.represents.touchedByUnlink hin hcb with rfl | hcb
          · exact hb
          · exact hqueued hcb
        case removed =>
          split at hcb
          · rwa [List.mem_singleton.mp hcb]
          · cases hcb
        case await => rwa [List.mem_singleton.mp hcb]
  | _ => cases hcb

variable {c' : State Thread Cb (Links Cb)} {es : List (Event Thread Cb)} {cb : Cb}

omit [DecidableEq Thread] [DecidableEq Cb] in
/-- What the links and the flags of the callback say, the callback says. -/
theorem fields_eq (hlinks : c'.queue.next cb = c.queue.next cb ∧ c'.queue.prev cb = c.queue.prev cb)
    (hset : c'.isRemovedSet cb = c.isRemovedSet cb)
    (hfinished : c'.callbackFinishedExecuting cb = c.callbackFinishedExecuting cb) :
    c'.fields cb = c.fields cb := by
  rw [State.fields, State.fields, hlinks.1, hlinks.2, hset, hfinished]

theorem signalStep_fields (ht : c.frames t = .signalling :: rest)
    (h : c.signalStep linksRegistry t rest = some (c', es)) (hcb : cb ∉ c.touched (.step t)) :
    c'.fields cb = c.fields cb := by
  simp only [State.touched, ht] at hcb
  rw [State.signalStep] at h
  cases hsig : c.signal <;> simp only [hsig, reduceCtorEq] at h hcb
  case signalled =>
    cases h
    rfl
  case loop =>
    cases hpop : c.queue.popFront with
    | none =>
      simp only [linksRegistry, hpop] at h
      cases h
      rfl
    | some r =>
      obtain ⟨b, anyMore, l'⟩ := r
      simp only [linksRegistry, hpop] at h
      cases h
      exact fields_eq (Links.popFront_frame hpop hcb) rfl rfl
  case execute b anyMore =>
    cases h
    have hb : cb ≠ b := fun h => hcb (h ▸ List.mem_cons_self)
    exact fields_eq ⟨rfl, rfl⟩ (Function.update_of_ne hb ..) rfl
  case executed b anyMore =>
    cases hremoved : c.isRemoved <;> cases anyMore <;>
      simp only [hremoved, if_true, Bool.false_eq_true, if_false] at h hcb <;> cases h
    case true.false => rfl
    case true.true => rfl
    all_goals
      have hb : cb ≠ b := fun h => hcb (h ▸ List.mem_cons_self)
      exact fields_eq ⟨rfl, rfl⟩ (Function.update_of_ne hb ..) (Function.update_of_ne hb ..)
  case relock =>
    split at h <;> cases h
    rfl

theorem lifeStep_fields {b : Cb} (ht : c.frames t = .life b :: rest)
    (h : c.lifeStep linksRegistry t rest b = some (c', es)) (hcb : cb ∉ c.touched (.step t)) :
    c'.fields cb = c.fields cb := by
  simp only [State.touched, ht] at hcb
  rw [State.lifeStep] at h
  cases hlife : c.life b <;> simp only [hlife, reduceCtorEq] at h hcb
  case add =>
    split at h
    · cases h
      rfl
    · split at h
      · cases h
        rfl
      · split at h <;> cases h
        rfl
  case push =>
    cases h
    exact fields_eq (Links.pushFront_frame hcb) rfl rfl
  case added =>
    cases h
    rfl
  case remove =>
    split at h <;> cases h
    rfl
  case unlink =>
    split at h <;> cases h
    · exact fields_eq (Links.unlink_frame hcb) rfl rfl
    · rfl
  case removed =>
    split at h <;> cases h <;> rfl
  case await =>
    split at h <;> cases h
    rfl

/-- A step changes no callback but those it touches. -/
theorem step_fields {a : Action Thread Cb} (h : step linksRegistry c a = some (c', es))
    (hcb : cb ∉ c.touched a) : c'.fields cb = c.fields cb := by
  cases a with
  | request t =>
    rw [step] at h
    split at h <;> cases h
    rfl
  | construct t b =>
    rw [step] at h
    split at h <;> cases h
    rfl
  | destroy t b =>
    rw [step] at h
    split at h
    · cases hlife : c.life b <;> simp only [hlife, reduceCtorEq] at h <;> cases h <;> rfl
    · cases h
  | step t =>
    rw [step] at h
    cases ht : c.frames t with
    | nil => simp [ht] at h
    | cons f rest =>
      cases f <;> simp only [ht] at h
      case request =>
        split at h
        · cases h
          rfl
        · split at h <;> cases h
          rfl
      case signalling => exact signalStep_fields ht h hcb
      case life b => exact lifeStep_fields ht h hcb
  | finish t =>
    rw [step] at h
    cases ht : c.frames t with
    | nil => simp [ht] at h
    | cons f rest =>
      cases f <;> simp only [ht, reduceCtorEq] at h
      case signalling =>
        cases hsig : c.signal <;> simp only [hsig, reduceCtorEq] at h
        cases h
        rfl
      case life b =>
        split at h <;> cases h
        rfl
  | lastSource =>
    cases h
    rfl

end Links

end StopToken
