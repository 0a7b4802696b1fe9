/-
# What the callbacks are told

What a run of the stop state has shown of each callback agrees with where the callback is
(`Told`).  It follows that no callback is executed twice or after it has been destroyed,
that none that is registered is left out once `__request_stop()` has returned, and that a
destructor returns while its callback is executed only from inside it (`calls_once`);
that no step touches a callback that is not there (`calls_touch`); and that the calls
never wait for each other in a circle (`calls_goOn`).  All of it takes the stop state to be
there, which `Libsg.StopCallbackReferences` looks into.
-/
import Libsg.StopCallbackLinks

open TransitionSystem IntrusiveList

namespace StopToken

section Trace

variable {Thread Cb : Type*} [DecidableEq Thread] [DecidableEq Cb]
variable {s s' : State Thread Cb (List Cb)} {tr es : List (Event Thread Cb)}

/-- The callback begins to be executed. -/
def Event.begins (cb : Cb) : Event Thread Cb → Bool
  | .executes _ c => c = cb
  | _ => false

/-- The callback begins to be executed or is destroyed. -/
def Event.concerns (cb : Cb) : Event Thread Cb → Bool
  | .executes _ c | .destroyed _ c => c = cb
  | _ => false

/-- How often the callback has begun to be executed. -/
def executions (tr : List (Event Thread Cb)) (cb : Cb) : ℕ :=
  tr.countP (Event.begins cb)

/-- It has not been executed yet. -/
def State.fresh (s : State Thread Cb (List Cb)) (cb : Cb) : Prop :=
  s.life cb = .unborn ∨ s.life cb = .add ∨ s.life cb = .push ∨ cb ∈ s.queue ∨
    s.signal.about cb = true ∧ s.signal.during cb = false

/-- It has been executed, or is. -/
def State.begun (s : State Thread Cb (List Cb)) (cb : Cb) : Prop :=
  s.life cb = .inlined ∨ s.signal.during cb = true ∨ s.callbackFinishedExecuting cb = true

/-- What has been shown of a callback agrees with where it is. -/
structure Told (tr : List (Event Thread Cb)) (s : State Thread Cb (List Cb)) (cb : Cb) : Prop where
  once : executions tr cb ≤ 1
  fresh : s.fresh cb → executions tr cb = 0
  begun : s.begun cb → executions tr cb = 1
  returns : ∀ u, .executes u cb ∈ tr → .executed u cb ∈ tr ∨
    s.life cb = .inlined ∧ .life cb ∈ s.frames u ∨
    s.signal.waiting = true ∧ s.signal.during cb = true ∧ s.signallingThread = some u
  destroyed : (∃ t, .destroyed t cb ∈ tr) ↔ s.life cb = .destroyed
  safe : ∀ t u, .destroyed t cb ∈ tr → .executes u cb ∈ tr → .executed u cb ∈ tr ∨ u = t

omit [DecidableEq Thread] in
/-- The callback is neither executed nor destroyed. -/
theorem Told.quiet {cb : Cb} (h : Told tr s cb) (hes : ∀ e ∈ es, e.concerns cb = false)
    (hfresh : s'.fresh cb → s.fresh cb)
    (hbegun : s'.begun cb → s.begun cb)
    (hdestroyed : s'.life cb = .destroyed ↔ s.life cb = .destroyed)
    (hinlined : ∀ u, s.life cb = .inlined → .life cb ∈ s.frames u → .executed u cb ∈ es ∨
      s'.life cb = .inlined ∧ .life cb ∈ s'.frames u)
    (hduring : ∀ u, s.signal.waiting = true → s.signal.during cb = true →
      s.signallingThread = some u → .executed u cb ∈ es ∨
        s'.signal.waiting = true ∧ s'.signal.during cb = true ∧ s'.signallingThread = some u) :
    Told (tr ++ es) s' cb := by
  have hnodestroyed (t : Thread) : .destroyed t cb ∉ es := fun hin => by
    simpa [Event.concerns] using hes _ hin
  have hno : executions es cb = 0 := by
    refine List.countP_eq_zero.mpr fun e he hb => ?_
    have hc := hes e he
    cases e <;> simp_all [Event.begins, Event.concerns]
  have happend : executions (tr ++ es) cb = executions tr cb := by
    rw [executions, List.countP_append, ← executions, ← executions, hno, Nat.add_zero]
  have hexecutes (u : Thread) : .executes u cb ∈ tr ++ es → .executes u cb ∈ tr := by
    rw [List.mem_append]
    rintro (hin | hin)
    · exact hin
    · have := List.countP_eq_zero.mp hno _ hin
      simp [Event.begins] at this
  have hmono {e : Event Thread Cb} (he : e ∈ tr) : e ∈ tr ++ es := List.mem_append_left es he
  refine ⟨?_, fun hf => ?_, fun hb => ?_, fun u hu => ?_, ?_, fun t u ht hu => ?_⟩
  · rw [happend]
    exact h.once
  · rw [happend]
    exact h.fresh (hfresh hf)
  · rw [happend]
    exact h.begun (hbegun hb)
  · rcases h.returns u (hexecutes u hu) with hend | ⟨hlife, hframe⟩ | ⟨hwait, hd, hthread⟩
    · exact .inl (hmono hend)
    · exact (hinlined u hlife hframe).imp (List.mem_append_right tr) .inl
    · exact (hduring u hwait hd hthread).imp (List.mem_append_right tr) .inr
  · rw [hdestroyed, ← h.destroyed]
    refine exists_congr fun t => ?_
    rw [List.mem_append, or_iff_left (hnodestroyed t)]
  · have ht : .destroyed t cb ∈ tr := (List.mem_append.mp ht).resolve_right (hnodestroyed t)
    exact (h.safe t u ht (hexecutes u hu)).imp_left hmono

omit [DecidableEq Thread] in
/-- The callback begins to be executed. -/
theorem Told.begin {cb : Cb} {t : Thread} (h : Told tr s cb) (hfresh : s.fresh cb)
    (hfresh' : ¬ s'.fresh cb) (hlife : s.life cb ≠ .destroyed) (hlife' : s'.life cb ≠ .destroyed)
    (hby : s'.life cb = .inlined ∧ .life cb ∈ s'.frames t ∨
      s'.signal.waiting = true ∧ s'.signal.during cb = true ∧ s'.signallingThread = some t) :
    Told (tr ++ [.executes t cb]) s' cb := by
  have hzero := h.fresh hfresh
  have happend : executions (tr ++ [.executes t cb]) cb = 1 := by
    rw [executions, List.countP_append, ← executions, hzero]
    simp [Event.begins]
  have hnobody (u : Thread) : .executes u cb ∉ tr := fun hin => by
    simpa [Event.begins] using List.countP_eq_zero.mp hzero _ hin
  have hthere (u : Thread) : .destroyed u cb ∉ tr := fun hin => hlife (h.destroyed.mp ⟨u, hin⟩)
  refine ⟨Nat.le_of_eq happend, fun hf => absurd hf hfresh', fun _ => happend, fun u hu => ?_, ?_,
    fun u v hu _ => ?_⟩
  · have hut : u = t := by simpa [hnobody u] using hu
    subst hut
    exact .inr hby
  · refine ⟨fun hin => ?_, fun hd => absurd hd hlife'⟩
    obtain ⟨u, hu⟩ := hin
    exact absurd (by simpa using hu) (hthere u)
  · exact absurd (by simpa using hu) (hthere u)

omit [DecidableEq Thread] in
/-- The callback is destroyed. -/
theorem Told.end {cb : Cb} {t : Thread} (h : Told tr s cb) (hlife : s.life cb ≠ .inlined)
    (hlives : s.life cb ≠ .destroyed) (hlife' : s'.life cb = .destroyed)
    (hqueue : cb ∈ s'.queue → cb ∈ s.queue)
    (hsignal : s'.signal = s.signal) (hthread : s'.signallingThread = s.signallingThread)
    (hfinished : s'.callbackFinishedExecuting = s.callbackFinishedExecuting)
    (hby : s.signal.during cb = true → s.signallingThread = some t) :
    Told (tr ++ [.destroyed t cb]) s' cb := by
  have happend : executions (tr ++ [.destroyed t cb]) cb = executions tr cb := by
    rw [executions, List.countP_append]
    simp [Event.begins, executions]
  have hexecutes {u : Thread} (hu : .executes u cb ∈ tr ++ [.destroyed t cb]) :
      .executes u cb ∈ tr := by
    simpa using hu
  have hmono {e : Event Thread Cb} (he : e ∈ tr) : e ∈ tr ++ [.destroyed t cb] :=
    List.mem_append_left _ he
  refine ⟨?_, fun hf => ?_, fun hb => ?_, fun u hu => ?_, ?_, fun u v hu hv => ?_⟩
  · rw [happend]
    exact h.once
  · rw [happend]
    refine h.fresh ?_
    simp only [State.fresh, hlife', hsignal, reduceCtorEq, false_or] at hf
    exact .inr (.inr (.inr (hf.imp_left hqueue)))
  · rw [happend]
    refine h.begun ?_
    simp only [State.begun, hlife', hsignal, hfinished, reduceCtorEq, false_or] at hb
    exact .inr hb
  · rcases h.returns u (hexecutes hu) with hend | ⟨hin, -⟩ | hd
    · exact .inl (hmono hend)
    · exact absurd hin hlife
    · rw [hsignal, hthread]
      exact .inr (.inr hd)
  · exact ⟨fun _ => hlife', fun _ => ⟨t, by simp⟩⟩
  · rcases h.returns v (hexecutes hv) with hend | ⟨hin, -⟩ | ⟨-, hd, hthread'⟩
    · exact .inl (hmono hend)
    · exact absurd hin hlife
    · rcases List.mem_append.mp hu with hu | hu
      · exact absurd (h.destroyed.mp ⟨u, hu⟩) hlives
      · have hut : u = t := by simpa using hu
        rw [hby hd] at hthread'
        exact .inr (hut.trans (Option.some.inj hthread')).symm

omit [DecidableEq Thread] in
/-- The constructor or the destructor of another callback goes on. -/
theorem Told.of_ne {c cb : Cb} {l : Life} (h : Told tr s cb) (hc : cb ≠ c)
    (hes : ∀ e ∈ es, e.concerns cb = false) (hlife : s'.life = Function.update s.life c l)
    (hqueue : cb ∈ s'.queue → cb ∈ s.queue) (hsignal : s'.signal = s.signal)
    (hthread : s'.signallingThread = s.signallingThread)
    (hfinished : s'.callbackFinishedExecuting = s.callbackFinishedExecuting)
    (hframes : ∀ u, .life cb ∈ s.frames u → .life cb ∈ s'.frames u) :
    Told (tr ++ es) s' cb := by
  have hsame : s'.life cb = s.life cb := by rw [hlife, Function.update_of_ne hc]
  refine h.quiet hes ?_ ?_ (by rw [hsame]) (fun u hl hu => .inr ⟨hsame.trans hl, hframes u hu⟩)
    fun u hw hd hu => .inr ⟨by rwa [hsignal], by rwa [hsignal], by rwa [hthread]⟩
  · rw [State.fresh, State.fresh, hsame, hsignal]
    exact Or.imp_right (Or.imp_right (Or.imp_right (Or.imp_left hqueue)))
  · rw [State.begun, State.begun, hsame, hsignal, hfinished]
    exact id

omit [DecidableEq Cb] in
/-- When a call is made the others stay. -/
theorem mem_push {t : Thread} {f g : Frame Cb} (u : Thread) (hu : g ∈ s.frames u) :
    g ∈ Function.update s.frames t (f :: s.frames t) u := by
  rw [CallStack.Inv.mem_update]
  by_cases hut : u = t
  · subst hut
    exact .inl ⟨rfl, List.mem_cons_of_mem f hu⟩
  · exact .inr ⟨hut, hu⟩

omit [DecidableEq Cb] in
/-- When the innermost call returns the others stay. -/
theorem mem_pop {t : Thread} {f g : Frame Cb} {rest : List (Frame Cb)} (ht : s.frames t = f :: rest)
    (hg : g ≠ f) (u : Thread) (hu : g ∈ s.frames u) : g ∈ Function.update s.frames t rest u := by
  rw [CallStack.Inv.mem_update]
  by_cases hut : u = t
  · subst hut
    rw [ht] at hu
    exact .inl ⟨rfl, (List.mem_cons.mp hu).resolve_left hg⟩
  · exact .inr ⟨hut, hu⟩

omit [DecidableEq Cb] in
/-- When the innermost call becomes another one the others stay. -/
theorem mem_replace {t : Thread} {f f' g : Frame Cb} {rest : List (Frame Cb)}
    (ht : s.frames t = f :: rest) (hg : g ≠ f) (u : Thread) (hu : g ∈ s.frames u) :
    g ∈ Function.update s.frames t (f' :: rest) u := by
  rw [CallStack.Inv.mem_update]
  by_cases hut : u = t
  · subst hut
    rw [ht] at hu
    exact .inl ⟨rfl, List.mem_cons_of_mem f' ((List.mem_cons.mp hu).resolve_left hg)⟩
  · exact .inr ⟨hut, hu⟩

/-- Where the constructor has not come to an execution. -/
def Life.early : Life → Bool
  | .unborn | .add | .push => true
  | _ => false

omit [DecidableEq Thread] in
/-- A constructor or a destructor goes on, and neither executes its callback nor ends it. -/
theorem Told.life_move {c cb : Cb} {l : Life} (h : Told tr s cb)
    (hlife : s'.life = Function.update s.life c l)
    (hearly : l.early = true → (s.life c).early = true) (hinlined : s.life c ≠ .inlined)
    (hinlined' : l ≠ .inlined) (hlives : s.life c ≠ .destroyed) (hlives' : l ≠ .destroyed)
    (hqueue : cb ∈ s'.queue → cb ∈ s.queue ∨ (s.life cb).early = true)
    (hsignal : s'.signal = s.signal) (hthread : s'.signallingThread = s.signallingThread)
    (hfinished : s'.callbackFinishedExecuting = s.callbackFinishedExecuting)
    (hframes : ∀ u, c ≠ cb → .life cb ∈ s.frames u → .life cb ∈ s'.frames u) :
    Told (tr ++ []) s' cb := by
  have hfresh (hf : (s.life cb).early = true) : s.fresh cb := by
    rw [State.fresh]
    cases hl : s.life cb <;> simp [hl, Life.early] at hf ⊢
  refine h.quiet (by simp) ?_ ?_ ?_ (fun u hl hu => .inr ?_)
    fun u hw hd hu => .inr ⟨by rwa [hsignal], by rwa [hsignal], by rwa [hthread]⟩
  · rcases eq_or_ne cb c with rfl | hc
    · rintro (hl | hl | hl | hin | habout)
      · exact hfresh (hearly (by simpa [hlife, Life.early] using congrArg Life.early hl))
      · exact hfresh (hearly (by simpa [hlife, Life.early] using congrArg Life.early hl))
      · exact hfresh (hearly (by simpa [hlife, Life.early] using congrArg Life.early hl))
      · exact (hqueue hin).elim (fun hin => .inr (.inr (.inr (.inl hin)))) hfresh
      · rw [hsignal] at habout
        exact .inr (.inr (.inr (.inr habout)))
    · have hsame : s'.life cb = s.life cb := by rw [hlife, Function.update_of_ne hc]
      rintro (hl | hl | hl | hin | habout)
      · exact .inl (hsame.symm.trans hl)
      · exact .inr (.inl (hsame.symm.trans hl))
      · exact .inr (.inr (.inl (hsame.symm.trans hl)))
      · exact (hqueue hin).elim (fun hin => .inr (.inr (.inr (.inl hin)))) hfresh
      · rw [hsignal] at habout
        exact .inr (.inr (.inr (.inr habout)))
  · rw [State.begun, State.begun, hsignal, hfinished]
    refine Or.imp_left fun hl => ?_
    rcases eq_or_ne cb c with rfl | hc
    · rw [hlife, Function.update_self] at hl
      exact absurd hl hinlined'
    · rwa [hlife, Function.update_of_ne hc] at hl
  · rcases eq_or_ne cb c with rfl | hc
    · rw [hlife, Function.update_self]
      exact ⟨fun hl => absurd hl hlives', fun hl => absurd hl hlives⟩
    · rw [hlife, Function.update_of_ne hc]
  · have hc : cb ≠ c := by
      rintro rfl
      exact hinlined hl
    rw [hlife, Function.update_of_ne hc]
    exact ⟨hl, hframes u hc.symm hu⟩

omit [DecidableEq Thread] in
/-- The call of `__request_stop()` goes on, and neither begins to execute the callback nor ends
it. -/
theorem Told.signal_move {cb : Cb} (h : Told tr s cb) (hes : ∀ e ∈ es, e.concerns cb = false)
    (hlife : s'.life = s.life) (hqueue : cb ∈ s'.queue → cb ∈ s.queue)
    (hfresh : s'.signal.about cb = true → s'.signal.during cb = false → s.fresh cb)
    (hbegun : s'.signal.during cb = true → s.signal.during cb = true)
    (hfinished : s'.callbackFinishedExecuting cb = true →
      s.callbackFinishedExecuting cb = true ∨ s.signal.during cb = true)
    (hframes : ∀ u, .life cb ∈ s.frames u → .life cb ∈ s'.frames u)
    (hduring : ∀ u, s.signal.waiting = true → s.signal.during cb = true →
      s.signallingThread = some u → .executed u cb ∈ es ∨
        s'.signal.waiting = true ∧ s'.signal.during cb = true ∧ s'.signallingThread = some u) :
    Told (tr ++ es) s' cb := by
  refine h.quiet hes ?_ ?_ (by rw [hlife]) (fun u hl hu => .inr ?_) hduring
  · rintro (hl | hl | hl | hin | ⟨habout, hno⟩)
    · exact .inl (hlife ▸ hl)
    · exact .inr (.inl (hlife ▸ hl))
    · exact .inr (.inr (.inl (hlife ▸ hl)))
    · exact .inr (.inr (.inr (.inl (hqueue hin))))
    · exact hfresh habout hno
  · rintro (hl | hd | hf)
    · exact .inl (hlife ▸ hl)
    · exact .inr (.inl (hbegun hd))
    · exact .inr ((hfinished hf).symm)
  · rw [hlife]
    exact ⟨hl, hframes u hu⟩

omit [DecidableEq Thread] in
/-- The call of `__request_stop()` goes on to where it has no callback. -/
theorem Told.signal_apart {cb : Cb} (h : Told tr s cb) (hes : ∀ e ∈ es, e.concerns cb = false)
    (hlife : s'.life = s.life) (hqueue : cb ∈ s'.queue → cb ∈ s.queue)
    (habout : s'.signal.about cb = false)
    (hfinished : s'.callbackFinishedExecuting cb = true →
      s.callbackFinishedExecuting cb = true ∨ s.signal.during cb = true)
    (hframes : ∀ u, .life cb ∈ s.frames u → .life cb ∈ s'.frames u)
    (hwaiting : s.signal.waiting = false) : Told (tr ++ es) s' cb := by
  refine h.signal_move hes hlife hqueue (fun ha => ?_) (fun hd => ?_) hfinished hframes
    fun u hw => ?_
  · rw [habout] at ha
    cases ha
  · rw [Signal.not_during habout] at hd
    cases hd
  · rw [hwaiting] at hw
    cases hw

theorem Told.move {cb : Cb} (h : Told tr s cb) (hinv : s.Inv) (hm : Move s s' es) :
    Told (tr ++ es) s' cb := by
  have hplaced := hinv.placed cb
  obtain ⟨hqueued, htaken, hfinished, hjoined, hleaving, hremoved, hpointed, hpoints⟩ := hplaced
  have habout := @Signal.about_of_during Cb _ cb s.signal
  have hrequested := hinv.signalling.requested
  have hsignalling (t : Thread) (rest : List (Frame Cb)) (ht : s.frames t = .signalling :: rest) :
      s.signal = .signalled ∨ s.signallingThread = some t := by
    refine hinv.signalling.thread t ?_
    rw [ht]
    exact List.mem_cons_self
  have hlife (t u : Thread) (rest : List (Frame Cb)) (ht : s.frames t = .life cb :: rest)
      (hu : .life cb ∈ s.frames u) : u = t := by
    refine hinv.calls.unique (.life cb) u t trivial hu ?_
    rw [ht]
    exact List.mem_cons_self
  cases hm with
  -- the steps at which a callback begins or a registration ends
  | @execute t rest c anyMore ht hsig =>
    rcases eq_or_ne cb c with rfl | hc
    · have habout : s.signal.about cb = true := by simp [hsig, Signal.about]
      have hduring : s.signal.during cb = false := by simp [hsig, Signal.during]
      have hthread : s.signallingThread = some t := by simpa [hsig] using hsignalling t rest ht
      have hplace := (htaken habout).2
      rw [hduring] at hplace
      refine h.begin (.inr (.inr (.inr (.inr ⟨habout, hduring⟩)))) ?_ ?_ ?_ ?_
      · grind [State.fresh, Life.joined, Life.leaving, Signal.during]
      · grind [Life.joined, Life.leaving]
      · grind [Life.joined, Life.leaving]
      · exact .inr ⟨rfl, by simp [Signal.during], hthread⟩
    · refine h.signal_move (by simp [Event.concerns, hc.symm]) rfl id (fun ha _ => ?_)
        (fun hd => ?_) .inl (fun _ => id) fun u hw => ?_
      · exact absurd (by simpa [Signal.about] using ha) hc.symm
      · exact absurd (by simpa [Signal.during] using hd) hc.symm
      · rw [hsig] at hw
        cases hw
  | @inlined t rest c ht hlife hstop =>
    rcases eq_or_ne cb c with rfl | hc
    · refine h.begin (.inr (.inl hlife)) ?_ (by simp [hlife]) (by simp [State.setLife]) ?_
      · simp only [State.fresh, State.setLife, Function.update_self]
        grind [Life.joined, Life.leaving]
      · refine .inl ⟨Function.update_self .., ?_⟩
        show .life cb ∈ s.frames t
        rw [ht]
        exact List.mem_cons_self
    · exact h.of_ne (l := .inlined) hc (by simp [Event.concerns, hc.symm]) rfl id rfl rfl rfl
        fun _ => id
  | @destroyDetached t c hlife =>
    rcases eq_or_ne cb c with rfl | hc
    · refine h.end (by simp [hlife]) (by simp [hlife]) (by simp [State.setLife]) id rfl rfl rfl
        fun hd => ?_
      grind [Life.joined, Life.leaving]
    · exact h.of_ne (l := .destroyed) hc (by simp [Event.concerns, hc.symm]) rfl id rfl rfl rfl
        fun _ => id
  | @unlink t rest c ht hlife hqueue =>
    rcases eq_or_ne cb c with rfl | hc
    · refine h.end (by simp [hlife]) (by simp [hlife])
        (by simp [State.setFrames, State.setLife]) List.mem_of_mem_erase rfl rfl rfl fun hd => ?_
      rw [(hqueued hqueue).2.1] at habout
      cases habout hd
    · exact h.of_ne (l := .destroyed) hc (by simp [Event.concerns, hc.symm]) rfl
        List.mem_of_mem_erase rfl rfl rfl (mem_pop ht (by simp [hc]))
  | @removedHere t rest c ht hlife hthread =>
    rcases eq_or_ne cb c with rfl | hc
    · exact h.end (by simp [hlife]) (by simp [hlife])
        (by simp [State.setFrames, State.setLife]) id rfl rfl rfl fun _ => hthread
    · exact h.of_ne (l := .destroyed) hc (by simp [Event.concerns, hc.symm]) rfl id rfl rfl rfl
        (mem_pop ht (by simp [hc]))
  | @awaited t rest c ht hlife hfinish =>
    rcases eq_or_ne cb c with rfl | hc
    · refine h.end (by simp [hlife]) (by simp [hlife])
        (by simp [State.setFrames, State.setLife]) id rfl rfl rfl fun hd => ?_
      rw [(htaken (habout hd)).1] at hfinish
      cases hfinish
    · exact h.of_ne (l := .destroyed) hc (by simp [Event.concerns, hc.symm]) rfl id rfl rfl rfl
        (mem_pop ht (by simp [hc]))
  -- the other steps of a registration
  | @construct t c hcode hl =>
    exact h.life_move (c := c) (l := .add) rfl (by simp [hl, Life.early]) (by simp [hl]) (by simp)
      (by simp [hl]) (by simp) .inl rfl rfl rfl fun u _ => mem_push u
  | @destroy t c hcode hl =>
    exact h.life_move (c := c) (l := .remove) rfl (by simp [Life.early]) (by simp [hl]) (by simp)
      (by simp [hl]) (by simp) .inl rfl rfl rfl fun u _ => mem_push u
  | @impossible t rest c ht hl hstop =>
    exact h.life_move (c := c) (l := .detached) rfl (by simp [Life.early]) (by simp [hl]) (by simp)
      (by simp [hl]) (by simp) .inl rfl rfl rfl fun u hc => mem_pop ht (by simp [hc.symm]) u
  | @lockAdd t rest c ht hl hstop hlock =>
    exact h.life_move (c := c) (l := .push) rfl (by simp [hl, Life.early]) (by simp [hl]) (by simp)
      (by simp [hl]) (by simp) .inl rfl rfl rfl fun _ _ => id
  | @push t rest c ht hl =>
    refine h.life_move (c := c) (l := .added) rfl (by simp [Life.early]) (by simp [hl]) (by simp)
      (by simp [hl]) (by simp) (fun hin => ?_) rfl rfl rfl fun _ _ => id
    rcases List.mem_cons.mp hin with rfl | hin
    · exact .inr (by rw [hl]; rfl)
    · exact .inl hin
  | @added t rest c ht hl =>
    exact h.life_move (c := c) (l := .registered) rfl (by simp [Life.early]) (by simp [hl])
      (by simp) (by simp [hl]) (by simp) .inl rfl rfl rfl
      fun u hc => mem_pop ht (by simp [hc.symm]) u
  | @lockRemove t rest c ht hl hlock =>
    exact h.life_move (c := c) (l := .unlink) rfl (by simp [Life.early]) (by simp [hl]) (by simp)
      (by simp [hl]) (by simp) .inl rfl rfl rfl fun _ _ => id
  | @unlinked t rest c ht hl hqueue =>
    exact h.life_move (c := c) (l := .removed) rfl (by simp [Life.early]) (by simp [hl]) (by simp)
      (by simp [hl]) (by simp) .inl rfl rfl rfl fun _ _ => id
  | @removedElsewhere t rest c ht hl hthread =>
    exact h.life_move (c := c) (l := .await) rfl (by simp [Life.early]) (by simp [hl]) (by simp)
      (by simp [hl]) (by simp) .inl rfl rfl rfl fun _ _ => id
  | @finishInlined t rest c ht hl =>
    rcases eq_or_ne cb c with rfl | hc
    · refine h.quiet (by simp [Event.concerns]) ?_ ?_ ?_ (fun u _ hu => .inl ?_)
        fun u hw hd hu => .inr ⟨hw, hd, hu⟩
      · simp [State.fresh, State.setFrames, State.setLife, hl]
      · exact fun _ => .inl hl
      · simp [State.setFrames, State.setLife, hl]
      · simp [hlife t u rest ht hu]
    · exact h.of_ne (l := .detached) hc (by simp [Event.concerns]) rfl id rfl rfl rfl
        (mem_pop ht (by simp [hc]))
  -- the steps of the request, which are about one callback at most
  | request hcode =>
    exact h.signal_move (by simp) rfl id (fun ha hd => .inr (.inr (.inr (.inr ⟨ha, hd⟩)))) id .inl
      mem_push fun u hw hd hu => .inr ⟨hw, hd, hu⟩
  | refused ht hstop =>
    exact h.signal_move (by simp [Event.concerns]) rfl id
      (fun ha hd => .inr (.inr (.inr (.inr ⟨ha, hd⟩)))) id .inl (mem_pop ht (by simp))
      fun u hw hd hu => .inr ⟨hw, hd, hu⟩
  | lastSource =>
    exact h.signal_move (by simp) rfl id (fun ha hd => .inr (.inr (.inr (.inr ⟨ha, hd⟩)))) id .inl
      (fun _ => id) fun u hw hd hu => .inr ⟨hw, hd, hu⟩
  | signal ht hstop hlock =>
    exact h.signal_apart (by simp) rfl id rfl .inl (mem_replace ht (by simp))
      (by rw [hrequested.mp hstop]; rfl)
  | signalled ht hsig =>
    exact h.signal_apart (by simp) rfl id rfl .inl (fun _ => id) (by rw [hsig]; rfl)
  | empty ht hsig hqueue =>
    exact h.signal_apart (by simp [Event.concerns]) rfl id rfl .inl (mem_pop ht (by simp))
      (by rw [hsig]; rfl)
  | @dequeue t rest c queue ht hsig hqueue =>
    refine h.signal_move (by simp) rfl (fun hin => ?_) (fun ha _ => ?_) (fun hd => ?_) .inl
      (fun _ => id) fun u hw => ?_
    · rw [hqueue]
      exact List.mem_cons_of_mem c hin
    · have hc : c = cb := by simpa [Signal.about] using ha
      exact .inr (.inr (.inr (.inl (by rw [hqueue, hc]; exact List.mem_cons_self))))
    · cases hd
    · rw [hsig] at hw
      cases hw
  | @finish t rest c anyMore ht hsig =>
    refine h.signal_move (by simp [Event.concerns]) rfl id (fun ha hd => ?_) (fun hd => ?_) .inl
      (fun _ => id) fun u _ hd hu => .inl ?_
    · have hd : s.signal.during cb = false := by simpa [hsig, Signal.during] using hd
      exact .inr (.inr (.inr (.inr ⟨by simpa [hsig, Signal.about] using ha, hd⟩)))
    · simpa [hsig, Signal.during] using hd
    · have hc : c = cb := by simpa [hsig, Signal.during] using hd
      have hthread : s.signallingThread = some t := by simpa [hsig] using hsignalling t rest ht
      have hut : t = u := Option.some.inj (hthread.symm.trans hu)
      simp [hc, hut]
  | @executedMore t rest c ht hsig hremoved =>
    refine h.signal_apart (by simp) rfl id rfl (fun hf => ?_) (fun _ => id) (by rw [hsig]; rfl)
    by_cases hc : cb = c
    · exact .inr (by simp [hsig, Signal.during, hc])
    · exact .inl (by simpa [hc] using hf)
  | @executedLast t rest c ht hsig hremoved =>
    refine h.signal_apart (by simp [Event.concerns]) rfl id rfl (fun hf => ?_)
      (mem_pop ht (by simp)) (by rw [hsig]; rfl)
    by_cases hc : cb = c
    · exact .inr (by simp [hsig, Signal.during, hc])
    · exact .inl (by simpa [State.setFrames, hc] using hf)
  | goneMore ht hsig hremoved =>
    exact h.signal_apart (by simp) rfl id rfl .inl (fun _ => id) (by rw [hsig]; rfl)
  | goneLast ht hsig hremoved =>
    exact h.signal_apart (by simp [Event.concerns]) rfl id rfl .inl (mem_pop ht (by simp))
      (by rw [hsig]; rfl)
  | relock ht hsig hlock =>
    exact h.signal_apart (by simp) rfl id rfl .inl (fun _ => id) (by rw [hsig]; rfl)

theorem told_of_reachable (h : (listSystem Thread Cb).Reachable tr s) (cb : Cb) :
    Told tr s cb := by
  have hboth : s.Inv ∧ ∀ cb, Told tr s cb := by
    refine Run.invariant (I := fun tr s => s.Inv ∧ ∀ cb, Told tr s cb)
      ⟨inv_start, fun cb => ?_⟩ ?_ h
    · constructor <;> simp [executions, listSystem, system, State.begun, Signal.during]
    · rintro tr s a s' es - - hstep ⟨hinv, htold⟩
      have hm := step_moves hstep
      exact ⟨hinv.move hm, fun cb => (htold cb).move hinv hm⟩
  exact hboth.2 cb

/-- The call returns `true`. -/
def Event.first : Event Thread Cb → Bool
  | .stopReturned _ first => first
  | _ => false

/-- How often a call of `__request_stop()` has returned `true`. -/
def firsts (tr : List (Event Thread Cb)) : ℕ :=
  tr.countP Event.first

/-- The call that has set the flag has returned. -/
def Signal.hasReturned : Signal Cb → Bool
  | .returned => true
  | _ => false

theorem firsts_of_reachable (h : (listSystem Thread Cb).Reachable tr s) :
    firsts tr = s.signal.hasReturned.toNat := by
  have hboth : s.Inv ∧ firsts tr = s.signal.hasReturned.toNat := by
    refine Run.invariant (I := fun tr s => s.Inv ∧ firsts tr = s.signal.hasReturned.toNat)
      ⟨inv_start, rfl⟩ ?_ h
    rintro tr s a s' es - - hstep ⟨hinv, hcount⟩
    have hm := step_moves hstep
    refine ⟨hinv.move hm, ?_⟩
    have happend : firsts (tr ++ es) = firsts tr + firsts es := List.countP_append
    rw [happend, hcount]
    cases hm with
    | signal ht hstop =>
      have hidle := hinv.signalling.requested.mp hstop
      simp [firsts, Signal.hasReturned, State.setFrames, hidle]
    | _ => simp_all [firsts, Event.first, Signal.hasReturned, State.setFrames, State.setLife]
  exact hboth.2

end Trace

/-! ## Who waits for whom -/

section Progress

variable {Thread Cb : Type*} [DecidableEq Thread] [DecidableEq Cb]
variable {s : State Thread Cb (List Cb)}

/-- The thread goes on, or the callback that it executes may return. -/
def State.goesOn (s : State Thread Cb (List Cb)) (t : Thread) : Prop :=
  (step listRegistry s (.step t)).isSome = true ∨ (step listRegistry s (.finish t)).isSome = true

theorem signal_goesOn {t : Thread} {rest : List (Frame Cb)}
    (ht : s.frames t = .signalling :: rest) (hactive : s.signal.active = true)
    (hlock : s.signal = .relock → s.locked = false) : s.goesOn t := by
  cases hsig : s.signal with
  | idle => simp [hsig, Signal.active] at hactive
  | returned => simp [hsig, Signal.active] at hactive
  | signalled => exact .inl (by simp [step, ht, State.signalStep, hsig])
  | loop =>
    refine .inl ?_
    cases hqueue : s.queue <;> simp [step, ht, State.signalStep, hsig, hqueue, listRegistry]
  | execute cb anyMore => exact .inl (by simp [step, ht, State.signalStep, hsig])
  | executing cb anyMore => exact .inr (by simp [step, ht, hsig])
  | executed cb anyMore =>
    refine .inl ?_
    cases anyMore <;> simp [step, ht, State.signalStep, hsig]
  | relock => exact .inl (by simp [step, ht, State.signalStep, hsig, hlock hsig])

theorem life_goesOn {t : Thread} {cb : Cb} {rest : List (Frame Cb)}
    (ht : s.frames t = .life cb :: rest) (hrunning : (s.life cb).running = true)
    (hlock : s.life cb = .add ∨ s.life cb = .remove → s.locked = false)
    (hawait : s.life cb = .await → s.callbackFinishedExecuting cb = true) : s.goesOn t := by
  cases hlife : s.life cb with
  | unborn => simp [hlife, Life.running] at hrunning
  | registered => simp [hlife, Life.running] at hrunning
  | detached => simp [hlife, Life.running] at hrunning
  | destroyed => simp [hlife, Life.running] at hrunning
  | add =>
    refine .inl ?_
    cases hstop : s.stopRequested <;> cases hpossible : s.possible <;>
      simp [step, ht, State.lifeStep, hlife, hstop, hpossible, hlock (.inl hlife)]
  | inlined => exact .inr (by simp [step, ht, hlife])
  | push => exact .inl (by simp [step, ht, State.lifeStep, hlife])
  | added => exact .inl (by simp [step, ht, State.lifeStep, hlife])
  | remove => exact .inl (by simp [step, ht, State.lifeStep, hlife, hlock (.inr hlife)])
  | unlink =>
    refine .inl ?_
    by_cases hin : cb ∈ s.queue <;> simp [step, ht, State.lifeStep, hlife, listRegistry, hin]
  | removed =>
    refine .inl ?_
    by_cases hthread : s.signallingThread = some t <;>
      simp [step, ht, State.lifeStep, hlife, hthread]
  | await => exact .inl (by simp [step, ht, State.lifeStep, hlife, hawait hlife])

omit [DecidableEq Thread] [DecidableEq Cb] in
/-- Where a call is that does not execute a callback, it is the innermost. -/
theorem State.Stacks.innermost (h : s.Stacks) {f : Frame Cb} (hf : f.single) (hbusy : s.busy f)
    (hwaits : ¬ s.waits f) : ∃ t rest, s.frames t = f :: rest := by
  obtain ⟨t, ht⟩ := h.somewhere f hf hbusy
  cases hframes : s.frames t with
  | nil =>
    rw [hframes] at ht
    cases ht
  | cons g rest =>
    rw [hframes] at ht
    rcases List.mem_cons.mp ht with rfl | ht
    · exact ⟨t, rest, hframes⟩
    · exact absurd (h.suspended t g rest f hframes ht) hwaits

/-- Who has the lock goes on. -/
theorem holder_goesOn (hinv : s.Inv) (hlocked : s.locked = true) : ∃ t, s.goesOn t := by
  obtain ⟨x, hx⟩ := hinv.held hlocked
  cases x with
  | none =>
    have hsig : s.signal = .signalled ∨ s.signal = .loop := by
      cases hsig : s.signal <;> simp_all [State.hasLock, Signal.hasLock]
    obtain ⟨t, rest, ht⟩ := hinv.calls.innermost (f := .signalling) trivial
      (by rcases hsig with hsig | hsig <;> simp [State.busy, hsig, Signal.active])
      (by rcases hsig with hsig | hsig <;> simp [State.waits, hsig, Signal.waiting])
    refine ⟨t, signal_goesOn ht ?_ ?_⟩ <;> rcases hsig with hsig | hsig <;>
      simp [hsig, Signal.active]
  | some cb =>
    have hlife : s.life cb = .push ∨ s.life cb = .unlink := by
      cases hlife : s.life cb <;> simp_all [State.hasLock, Life.hasLock]
    obtain ⟨t, rest, ht⟩ := hinv.calls.innermost (f := .life cb) trivial
      (by rcases hlife with hlife | hlife <;> simp [State.busy, hlife, Life.running])
      (by rcases hlife with hlife | hlife <;> simp [State.waits, hlife])
    refine ⟨t, life_goesOn ht ?_ ?_ ?_⟩ <;> rcases hlife with hlife | hlife <;>
      simp [hlife, Life.running]

/-- While nobody has the lock, an innermost call goes on unless it waits for a callback. -/
theorem goesOn_or_awaits (hinv : s.Inv) (hlock : s.locked = false) {t : Thread} {f : Frame Cb}
    {rest : List (Frame Cb)} (ht : s.frames t = f :: rest) :
    s.goesOn t ∨ ∃ cb, f = .life cb ∧ s.life cb = .await ∧ s.signal.about cb = true := by
  have htop : f ∈ s.frames t := by
    rw [ht]
    exact List.mem_cons_self
  have hbusy := hinv.calls.inProgress f t htop
  cases f with
  | request =>
    refine .inl (.inl ?_)
    cases hstop : s.stopRequested <;> simp [step, ht, hlock, hstop]
  | signalling => exact .inl (signal_goesOn ht hbusy fun _ => hlock)
  | life cb =>
    by_cases hawait : s.life cb = .await ∧ s.callbackFinishedExecuting cb = false
    · obtain ⟨hlife, hfinished⟩ := hawait
      rcases (hinv.placed cb).leaving (by simp [hlife, Life.leaving]) with habout | hdone
      · exact .inr ⟨cb, rfl, hlife, habout⟩
      · rw [hfinished] at hdone
        cases hdone
    · refine .inl (life_goesOn ht hbusy (fun _ => hlock) fun hlife => ?_)
      by_contra hfinished
      exact hawait ⟨hlife, by simpa using hfinished⟩

/-- **The calls do not wait for each other in a circle.** -/
theorem somebody_goesOn (hinv : s.Inv) {t : Thread} (ht : s.frames t ≠ []) : ∃ u, s.goesOn u := by
  cases hlock : s.locked with
  | true => exact holder_goesOn hinv hlock
  | false =>
    obtain ⟨f, rest, hframes⟩ := List.exists_cons_of_ne_nil ht
    rcases goesOn_or_awaits hinv hlock hframes with hgo | ⟨cb, rfl, hlife, habout⟩
    · exact ⟨t, hgo⟩
    -- the callback is executed by another thread, whose innermost call waits for none
    have hactive : s.signal.active = true := by
      cases hsig : s.signal <;> simp_all [Signal.about, Signal.active]
    obtain ⟨u, hu⟩ := hinv.calls.somewhere .signalling trivial hactive
    have hthread : s.signallingThread = some u := by
      refine (hinv.signalling.thread u hu).resolve_left fun hsig => ?_
      simp [hsig, Signal.about] at habout
    obtain ⟨g, rest', hframes'⟩ := List.exists_cons_of_ne_nil (List.ne_nil_of_mem hu)
    rcases goesOn_or_awaits hinv hlock hframes' with hgo | ⟨c, rfl, hc, -⟩
    · exact ⟨u, hgo⟩
    · refine absurd hthread (hinv.elsewhere u c ?_ hc)
      rw [hframes']
      exact List.mem_cons_self

end Progress

/-! ## The stop state of the source -/

section Results

variable {Thread Cb : Type*} [DecidableEq Thread] [DecidableEq Cb]
variable {c : State Thread Cb (Links Cb)} {tr es : List (Event Thread Cb)}

/-- The callback is there when it is executed. -/
theorem Move.executes_alive {s s' : State Thread Cb (List Cb)} (hm : Move s s' es) (hinv : s.Inv)
    {t : Thread} {cb : Cb} (h : .executes t cb ∈ es) :
    es = [.executes t cb] ∧ s.life cb ≠ .destroyed := by
  cases hm with
  | @execute u rest b anyMore ht hsig =>
    have hb : t = u ∧ cb = b := by simpa using h
    obtain ⟨rfl, rfl⟩ := hb
    refine ⟨rfl, fun hlife => ?_⟩
    have htaken := ((hinv.placed cb).taken (by simp [hsig, Signal.about])).2
    simp [hlife, hsig, Signal.during, Life.joined, Life.leaving] at htaken
  | @inlined u rest b ht hlife hstop =>
    have hb : t = u ∧ cb = b := by simpa using h
    obtain ⟨rfl, rfl⟩ := hb
    exact ⟨rfl, by simp [hlife]⟩
  | _ => simp at h

/-- **One call of `__request_stop()` at most returns `true`.  No callback is executed twice, or
after it has been destroyed; one that is registered has been executed when that call has
returned; and one that is destroyed while it is executed is destroyed by the thread that
executes it.** -/
theorem calls_once (h : (linksSystem Thread Cb).Reachable tr c) :
    firsts tr ≤ 1 ∧ ∀ cb,
      executions tr cb ≤ 1 ∧
      (∀ tr₁ tr₂ t, tr = tr₁ ++ .executes t cb :: tr₂ → ∀ u, .destroyed u cb ∉ tr₁) ∧
      (firsts tr = 1 → c.life cb = .registered → ∃ t, .executes t cb ∈ tr ∧ .executed t cb ∈ tr) ∧
      (∀ t u, .destroyed t cb ∈ tr → .executes u cb ∈ tr → .executed u cb ∈ tr ∨ u = t) := by
  obtain ⟨s, hs, hlinked⟩ := Run.lockstep links_lockstep h
  have hinv := inv_of_reachable hs
  have hfirsts := firsts_of_reachable hs
  refine ⟨?_, fun cb => ?_⟩
  · rw [hfirsts]
    exact Bool.toNat_le _
  have htold := told_of_reachable hs cb
  refine ⟨htold.once, fun tr₁ tr₂ t htr u hu => ?_, fun hone hlife => ?_, htold.safe⟩
  · obtain ⟨tr₀, r, a, r', es, es₁, es₂, hr, -, hstep, hes, htr₁⟩ := Run.split hs htr
    have hm := step_moves hstep
    have hrinv := inv_of_reachable hr
    have hin : .executes t cb ∈ es := by simp [hes]
    obtain ⟨hone, hlives⟩ := hm.executes_alive hrinv hin
    have hnil : es₁ = [] := by
      rw [hone] at hes
      cases es₁ with
      | nil => rfl
      | cons e es₁ => simp at hes
    rw [htr₁, hnil, List.append_nil] at hu
    exact hlives ((told_of_reachable hr cb).destroyed.mp ⟨u, hu⟩)
  · have hreturned : s.signal = .returned := by
      rw [hfirsts] at hone
      cases hsig : s.signal <;> simp_all [Signal.hasReturned]
    have hlife : s.life cb = .registered := by
      rw [hlinked.same] at hlife
      exact hlife
    -- the list is empty, and the call of `__request_stop()` is about no callback
    have hqueue := hinv.signalling.rest (by simp [hreturned, Signal.last])
    have hfinished : s.callbackFinishedExecuting cb = true := by
      have hplaced := (hinv.placed cb).joined (by simp [hlife, Life.joined])
      simpa [hqueue, hreturned, Signal.about] using hplaced
    have hone := htold.begun (.inr (.inr hfinished))
    obtain ⟨e, he, hbegins⟩ := List.countP_pos_iff.mp (Nat.lt_of_lt_of_eq Nat.zero_lt_one hone.symm)
    cases e <;> simp [Event.begins] at hbegins
    case executes t b =>
      subst hbegins
      refine ⟨t, he, (htold.returns t he).resolve_right ?_⟩
      simp [hlife, hreturned, Signal.during]

/-- **No step touches a callback that is not there**, and the list holds none.  What a step
does not touch stays as it is.  The flag on the stack of `__request_stop()` is only written
while that call is there, inside the callback it executes. -/
theorem calls_touch (h : (linksSystem Thread Cb).Reachable tr c) (a : Action Thread Cb) :
    (∀ cb ∈ c.touched a, (c.life cb).alive = true) ∧
      (∀ c' es, (linksSystem Thread Cb).step c a = some (c', es) →
        ∀ cb, cb ∉ c.touched a → c'.fields cb = c.fields cb) ∧
      (c.writesFlag a = true → c.signal.waiting = true) ∧
      ∃ callbacks, c.queue.Represents callbacks ∧
        ∀ cb ∈ callbacks, (c.life cb).alive = true := by
  obtain ⟨s, hs, hlinked⟩ := Run.lockstep links_lockstep h
  have hinv := inv_of_reachable hs
  have hlife : c.life = s.life := by
    rw [hlinked.same]
    rfl
  refine ⟨fun cb hcb => ?_, fun c' es hstep cb => step_fields hstep, fun hflag => ?_, s.queue,
    hlinked.represents, fun cb hcb => ?_⟩
  · rw [hlife]
    exact touched_alive hlinked hinv hcb
  · obtain ⟨l, rfl⟩ : ∃ l, c = s.withQueue l := ⟨c.queue, hlinked.same⟩
    cases a with
    | step t =>
      rw [State.writesFlag, frames_withQueue] at hflag
      cases ht : s.frames t with
      | nil => simp [ht] at hflag
      | cons f rest =>
        cases f <;> simp only [ht, Bool.false_eq_true, decide_eq_true_eq] at hflag
        case life cb =>
          obtain ⟨hremoved, hthread, hset⟩ := hflag
          rw [life_withQueue] at hremoved
          have hduring := (hinv.placed cb).points hset (by simp [hremoved])
          exact hinv.calls.waiting_of_removed hinv.signalling.thread ht hthread
            (Signal.about_of_during hduring)
    | _ => cases hflag
  · rw [hlife]
    exact Life.alive_of_joined ((hinv.placed cb).queued hcb).1

/-- **While a call is in progress, some thread goes on or executes a callback.** -/
theorem calls_goOn (h : (linksSystem Thread Cb).Reachable tr c) {t : Thread}
    (ht : c.frames t ≠ []) :
    ∃ u, ((linksSystem Thread Cb).step c (.step u)).isSome = true ∨
      ((linksSystem Thread Cb).step c (.finish u)).isSome = true := by
  obtain ⟨s, hs, hlinked⟩ := Run.lockstep links_lockstep h
  have hframes : c.frames = s.frames := by
    rw [hlinked.same]
    rfl
  rw [hframes] at ht
  obtain ⟨u, hu⟩ := somebody_goesOn (inv_of_reachable hs) ht
  have hsame (a : Action Thread Cb) := (links_lockstep.step tr c s a hs hlinked).isSome
  refine ⟨u, ?_⟩
  rw [hsame, hsame]
  exact hu

end Results

end StopToken
