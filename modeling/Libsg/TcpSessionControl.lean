/-
# The strand and the stacks of a `tcp_session`

The strand's queue and the call stacks, which `Move` leaves open, tied to the places of
the coroutines: a handler that is to resume is in the queue, and what a coroutine or
`close_impl()` has begun is on the strand's stack (`ControlInv`).  A step only changes the
stack of the agent that makes it (`Turn`).
-/
import Libsg.TcpSessionMove
import Mathlib.Tactic.Common

open TransitionSystem

namespace TcpSession

variable {τ : Type}

/-! ## Places and frames -/

/-- How a coroutine or `close_impl()` depends on the strand. -/
inductive Place
  /-- not at all: not begun, ended, or suspended in an operation -/
  | away
  /-- its handler is queued -/
  | waiting
  /-- it executes -/
  | active
  deriving DecidableEq

def ReaderPc.place : ReaderPc → Place
  | .unborn | .reading | .finished => .away
  | .queued | .resumed _ => .waiting
  | _ => .active

def WriterPc.place : WriterPc → Place
  | .unborn | .toSpawn | .lost | .writing _ | .finished => .away
  | .queued | .resumed _ => .waiting
  | _ => .active

def ImplPc.place : ImplPc → Place
  | .unborn | .dispatching | .finished => .away
  | .queued => .waiting
  | _ => .active

def Session.place (s : Session τ) : Handler → Place
  | .reader => s.readerPc.place
  | .writer w => (s.writers w).place
  | .closeImpl i => (s.impls i).place

def Handler.frame : Handler → Frame
  | .reader => .reader
  | .writer w => .writer w
  | .closeImpl i => .closeImpl i

/-- `reader()` executes and is not inside a call. -/
def ReaderPc.onTop : ReaderPc → Bool
  | .getOption | .loop | .completed _ | .catchLoad _ | .catchRecord _ | .callClose => true
  | _ => false

/-- The queue and the stacks hold what the places say. -/
structure ControlInv (s : Session τ) : Prop where
  waiting : ∀ h, s.place h = .waiting → h ∈ s.queue
  active : ∀ h : Handler, s.place h = .active → h.frame ∈ s.stack .strand
  strand : ∀ (t : τ) (h : Handler), h.frame ∉ s.stack (.thread t)
  reader : s.readerPc.onTop = true → (s.stack .strand).head? = some .reader

theorem ControlInv.initial : ControlInv ({} : Session τ) where
  waiting h hw := by cases h <;> cases hw
  active h ha := by cases h <;> cases ha
  strand _ _ h := by cases h
  reader h := by cases h

/-- The handlers of the session only run on the strand. -/
theorem ControlInv.eq_strand {s : Session τ} (hc : ControlInv s) {a : Agent τ} {k : List Frame}
    (h : Handler) (hk : s.stack a = h.frame :: k) : a = .strand := by
  cases a with
  | thread t =>
    have hmem : h.frame ∈ s.stack (.thread t) := by
      rw [hk]
      exact List.mem_cons_self
    exact absurd hmem (hc.strand t h)
  | strand => rfl

/-! ### One change at a time -/

/-- A frame that is no handler's. -/
def Frame.plain : Frame → Bool
  | .reader | .writer _ | .closeImpl _ => false
  | _ => true

theorem Handler.not_plain (h : Handler) : h.frame.plain = false := by
  cases h <;> rfl

theorem Handler.frame_ne {h h' : Handler} (hne : h' ≠ h) : h'.frame ≠ h.frame := by
  intro heq
  apply hne
  cases h <;> cases h' <;> cases heq <;> rfl

theorem ReaderPc.place_of_onTop {pc : ReaderPc} (htop : pc.onTop = true) : pc.place = .active := by
  cases pc <;> first | rfl | cases htop

/-- No handler's frame is among plain ones. -/
theorem Handler.frame_mem_append {h : Handler} {fs k : List Frame}
    (hfs : fs.all Frame.plain = true) : h.frame ∈ fs ++ k ↔ h.frame ∈ k := by
  rw [List.mem_append]
  refine ⟨fun hmem => hmem.resolve_left fun hplain => ?_, Or.inr⟩
  have htrue := List.all_eq_true.mp hfs _ hplain
  rw [h.not_plain] at htrue
  cases htrue

theorem Handler.frame_mem_cons {h : Handler} {f : Frame} {k : List Frame} (hf : f.plain = true) :
    h.frame ∈ f :: k ↔ h.frame ∈ k := by
  have hfs : [f].all Frame.plain = true := by
    rw [List.all_cons, hf]
    rfl
  exact Handler.frame_mem_append hfs

/-- Only the place of `h` changes, to `p`. -/
structure Becomes (h : Handler) (p : Place) (s s' : Session τ) : Prop where
  place : s'.place h = p
  others : ∀ h', h' ≠ h → s'.place h' = s.place h'
  reader : h ≠ .reader → s'.readerPc = s.readerPc

section Becomes

variable {s s' : Session τ} {p : Place}

theorem Becomes.ofReader {pc : ReaderPc} (hreader : s'.readerPc = pc) (hplace : pc.place = p)
    (hwriters : s'.writers = s.writers) (himpls : s'.impls = s.impls) :
    Becomes .reader p s s' where
  place := by rw [Session.place, hreader, hplace]
  others h' hne := by
    cases h' with
    | reader => exact absurd rfl hne
    | writer w => rw [Session.place, hwriters]; rfl
    | closeImpl i => rw [Session.place, himpls]; rfl
  reader hne := absurd rfl hne

theorem Becomes.ofWriter {w : ℕ} {pc : WriterPc}
    (hwriters : s'.writers = Function.update s.writers w pc) (hplace : pc.place = p)
    (hreader : s'.readerPc = s.readerPc) (himpls : s'.impls = s.impls) :
    Becomes (.writer w) p s s' where
  place := by rw [Session.place, hwriters, Function.update_self, hplace]
  others h' hne := by
    cases h' with
    | reader => rw [Session.place, hreader]; rfl
    | writer w' =>
      have hw : w' ≠ w := fun heq => hne (congrArg Handler.writer heq)
      rw [Session.place, hwriters, Function.update_of_ne hw]
      rfl
    | closeImpl i => rw [Session.place, himpls]; rfl
  reader _ := hreader

theorem Becomes.ofImpl {i : ℕ} {pc : ImplPc}
    (himpls : s'.impls = Function.update s.impls i pc) (hplace : pc.place = p)
    (hreader : s'.readerPc = s.readerPc) (hwriters : s'.writers = s.writers) :
    Becomes (.closeImpl i) p s s' where
  place := by rw [Session.place, himpls, Function.update_self, hplace]
  others h' hne := by
    cases h' with
    | reader => rw [Session.place, hreader]; rfl
    | writer w => rw [Session.place, hwriters]; rfl
    | closeImpl i' =>
      have hi : i' ≠ i := fun heq => hne (congrArg Handler.closeImpl heq)
      rw [Session.place, himpls, Function.update_of_ne hi]
      rfl
  reader _ := hreader

/-- Unless its place becomes active the reader is not on top. -/
theorem Becomes.onTop {h : Handler} (hb : Becomes h p s s') (hp : p ≠ .active)
    (htop : s'.readerPc.onTop = true) : h ≠ .reader ∧ s.readerPc.onTop = true := by
  have hne : h ≠ .reader := by
    rintro rfl
    exact hp (hb.place.symm.trans (ReaderPc.place_of_onTop htop))
  exact ⟨hne, hb.reader hne ▸ htop⟩

end Becomes

section Changes

variable {s s₁ s' : Session τ} {a : Agent τ} {f : Frame} {k : List Frame} {h : Handler}

/-- Nothing that matters here changes. -/
theorem ControlInv.keep (hc : ControlInv s) (hreader : s'.readerPc = s.readerPc)
    (hwriters : s'.writers = s.writers) (himpls : s'.impls = s.impls)
    (hqueue : s'.queue = s.queue) (hstack : s'.stack = s.stack) : ControlInv s' := by
  have hplace : ∀ h, s'.place h = s.place h := by
    intro h
    cases h with
    | reader => rw [Session.place, hreader]; rfl
    | writer w => rw [Session.place, hwriters]; rfl
    | closeImpl i => rw [Session.place, himpls]; rfl
  refine ⟨fun h hw => ?_, fun h ha => ?_, fun t h => ?_, fun htop => ?_⟩
  · rw [hqueue]
    exact hc.waiting h (hplace h ▸ hw)
  · rw [hstack]
    exact hc.active h (hplace h ▸ ha)
  · rw [hstack]
    exact hc.strand t h
  · rw [hstack]
    exact hc.reader (hreader ▸ htop)

/-- A coroutine that is not, or no longer, in the strand's hands. -/
theorem ControlInv.forget (hc : ControlInv s) (hb : Becomes h .away s s')
    (hqueue : s'.queue = s.queue) (hstack : s'.stack = s.stack) : ControlInv s' := by
  have hplace : ∀ {h' p}, p ≠ .away → s'.place h' = p → s.place h' = p := by
    intro h' p hp heq
    by_cases hsame : h' = h
    · subst hsame
      exact absurd (heq.symm.trans hb.place) hp
    · rw [← hb.others h' hsame, heq]
  refine ⟨fun h' hw => ?_, fun h' ha => ?_, fun t h' => ?_, fun htop => ?_⟩
  · rw [hqueue]
    exact hc.waiting h' (hplace nofun hw)
  · rw [hstack]
    exact hc.active h' (hplace nofun ha)
  · rw [hstack]
    exact hc.strand t h'
  · rw [hstack]
    exact hc.reader (hb.onTop nofun htop).2

/-- A handler is queued. -/
theorem ControlInv.posts (hc : ControlInv s) (hb : Becomes h .waiting s s₁)
    (hqueue : s₁.queue = s.queue) (hstack : s₁.stack = s.stack) : ControlInv (s₁.post h) where
  waiting h' hw := by
    show h' ∈ s₁.queue ++ [h]
    rw [hqueue, List.mem_append]
    by_cases hsame : h' = h
    · exact Or.inr (List.mem_singleton.mpr hsame)
    · exact Or.inl (hc.waiting h' (hb.others h' hsame ▸ hw))
  active h' ha := by
    have ha : s₁.place h' = .active := ha
    have hother : h' ≠ h := by
      rintro rfl
      cases ha.symm.trans hb.place
    show h'.frame ∈ s₁.stack .strand
    rw [hstack]
    exact hc.active h' (hb.others h' hother ▸ ha)
  strand t h' := by
    show h'.frame ∉ s₁.stack (.thread t)
    rw [hstack]
    exact hc.strand t h'
  reader htop := by
    show (s₁.stack .strand).head? = _
    rw [hstack]
    exact hc.reader (hb.onTop nofun htop).2

/-- What is executing on the strand goes on, perhaps into a call. -/
theorem ControlInv.advance (hc : ControlInv s) (hk : s.stack .strand = h.frame :: k)
    (hb : Becomes h .active s s') (hqueue : s'.queue = s.queue) (hstack : s'.stack = s.stack) :
    ControlInv s' := by
  refine ⟨fun h' hw => ?_, fun h' ha => ?_, fun t h' => ?_, fun htop => ?_⟩
  · have hother : h' ≠ h := by
      rintro rfl
      cases hw.symm.trans hb.place
    rw [hqueue]
    exact hc.waiting h' (hb.others h' hother ▸ hw)
  · rw [hstack]
    by_cases hsame : h' = h
    · rw [hsame, hk]
      exact List.mem_cons_self
    · exact hc.active h' (hb.others h' hsame ▸ ha)
  · rw [hstack]
    exact hc.strand t h'
  · rw [hstack]
    by_cases hreader : h = .reader
    · rw [hk, hreader]
      rfl
    · exact hc.reader (hb.reader hreader ▸ htop)

variable [DecidableEq τ]

theorem Session.setStack_self : (s.setStack a k).stack a = k := by
  simp only [Session.setStack, Function.update_self]

theorem Session.setStack_of_ne {b : Agent τ} (hne : b ≠ a) :
    (s.setStack a k).stack b = s.stack b := by
  simp only [Session.setStack, Function.update_of_ne hne]

theorem Session.setStack_thread (t : τ) :
    (s.setStack .strand k).stack (.thread t) = s.stack (.thread t) :=
  Session.setStack_of_ne (fun heq => by cases heq)

/-- The stack of an agent changes in plain frames only. -/
theorem ControlInv.restack (hc : ControlInv s) (hframes : ∀ h : Handler, h.frame ∈ k ↔ h.frame ∈ s.stack a)
    (htop : s.readerPc.onTop = true → a ≠ .strand) : ControlInv (s.setStack a k) where
  waiting := hc.waiting
  active h ha := by
    by_cases hstrand : Agent.strand = a
    · subst hstrand
      rw [Session.setStack_self, hframes]
      exact hc.active h ha
    · rw [Session.setStack_of_ne hstrand]
      exact hc.active h ha
  strand t h := by
    by_cases hthread : Agent.thread t = a
    · subst hthread
      rw [Session.setStack_self, hframes]
      exact hc.strand t h
    · rw [Session.setStack_of_ne hthread]
      exact hc.strand t h
  reader hreader := by
    rw [Session.setStack_of_ne (Ne.symm (htop hreader))]
    exact hc.reader hreader

/-- Plain frames take the place of one on top. -/
theorem ControlInv.swap {k' : List Frame} (hc : ControlInv s₁) (hstack : s₁.stack = s.stack)
    (hk : s.stack a = f :: k) (hf : f.plain = true) (fs : List Frame)
    (hfs : fs.all Frame.plain = true) (hk' : k' = fs ++ k) : ControlInv (s₁.setStack a k') := by
  subst hk'
  rw [← hstack] at hk
  refine hc.restack (fun h => ?_) fun htop hstrand => ?_
  · rw [hk, Handler.frame_mem_append hfs, Handler.frame_mem_cons hf]
  · subst hstrand
    have hhead := hc.reader htop
    rw [hk, List.head?_cons, Option.some.injEq] at hhead
    rw [hhead] at hf
    cases hf

/-- It calls a function. -/
theorem ControlInv.calls {k' : List Frame} (hc : ControlInv s) (hk : s.stack .strand = h.frame :: k)
    (hb : Becomes h .active s s₁) (hqueue : s₁.queue = s.queue) (hstack : s₁.stack = s.stack)
    (hreader : h = .reader → s₁.readerPc.onTop = false) (fs : List Frame)
    (hfs : fs.all Frame.plain = true) (hk' : k' = fs ++ h.frame :: k) :
    ControlInv (s₁.setStack .strand k') := by
  subst hk'
  refine (hc.advance hk hb hqueue hstack).restack (fun h' => ?_) fun htop => ?_
  · rw [hstack, hk, Handler.frame_mem_append hfs]
  · have hne : h ≠ .reader := by
      intro heq
      rw [hreader heq] at htop
      cases htop
    have hhead := hc.reader (hb.reader hne ▸ htop)
    rw [hk, List.head?_cons, Option.some.injEq] at hhead
    exact absurd hhead.symm (Handler.frame_ne (Ne.symm hne))

/-- It is suspended, or ends. -/
theorem ControlInv.suspend (hc : ControlInv s) (hk : s.stack .strand = h.frame :: k)
    (hb : Becomes h .away s s₁) (hqueue : s₁.queue = s.queue) (hstack : s₁.stack = s.stack) :
    ControlInv (s₁.setStack .strand k) := by
  have hforget := hc.forget hb hqueue hstack
  refine ⟨hforget.waiting, fun h' ha => ?_, fun t h' => ?_, fun htop => ?_⟩
  · have ha : s₁.place h' = .active := ha
    have hother : h' ≠ h := by
      rintro rfl
      cases ha.symm.trans hb.place
    have hmem := hforget.active h' ha
    rw [hstack, hk] at hmem
    rw [Session.setStack_self]
    exact (List.mem_cons.mp hmem).resolve_left (Handler.frame_ne hother)
  · rw [Session.setStack_thread, hstack]
    exact hc.strand t h'
  · have hreader := hb.onTop nofun htop
    have hhead := hc.reader hreader.2
    rw [hk, List.head?_cons, Option.some.injEq] at hhead
    exact absurd hhead.symm (Handler.frame_ne (Ne.symm hreader.1))

/-- A handler other than the reader's runs at once, in the place of a call. -/
theorem ControlInv.begins (hc : ControlInv s) (hk : s.stack .strand = f :: k)
    (hf : f.plain = true) (hb : Becomes h .active s s₁) (hne : h ≠ .reader)
    (hqueue : s₁.queue = s.queue) (hstack : s₁.stack = s.stack) :
    ControlInv (s₁.setStack .strand (h.frame :: k)) := by
  refine ⟨fun h' hw => ?_, fun h' ha => ?_, fun t h' => ?_, fun htop => ?_⟩
  · have hw : s₁.place h' = .waiting := hw
    have hother : h' ≠ h := by
      rintro rfl
      cases hw.symm.trans hb.place
    show h' ∈ s₁.queue
    rw [hqueue]
    exact hc.waiting h' (hb.others h' hother ▸ hw)
  · have ha : s₁.place h' = .active := ha
    rw [Session.setStack_self]
    by_cases hsame : h' = h
    · rw [hsame]
      exact List.mem_cons_self
    · have hmem := hc.active h' (hb.others h' hsame ▸ ha)
      rw [hk, Handler.frame_mem_cons hf] at hmem
      exact List.mem_cons_of_mem _ hmem
  · rw [Session.setStack_thread, hstack]
    exact hc.strand t h'
  · have htop : s₁.readerPc.onTop = true := htop
    have hhead := hc.reader (hb.reader hne ▸ htop)
    rw [hk, List.head?_cons, Option.some.injEq] at hhead
    rw [hhead] at hf
    cases hf

/-- The first handler of the queue runs. -/
theorem ControlInv.runs (hc : ControlInv s) (hidle : s.stack .strand = []) {q : List Handler}
    (hq : s.queue = h :: q) (hb : Becomes h .active s s₁) (hqueue : s₁.queue = q)
    (hstack : s₁.stack = s.stack) : ControlInv (s₁.setStack .strand [h.frame]) := by
  refine ⟨fun h' hw => ?_, fun h' ha => ?_, fun t h' => ?_, fun htop => ?_⟩
  · have hw : s₁.place h' = .waiting := hw
    have hother : h' ≠ h := by
      rintro rfl
      cases hw.symm.trans hb.place
    have hmem := hc.waiting h' (hb.others h' hother ▸ hw)
    rw [hq] at hmem
    show h' ∈ s₁.queue
    rw [hqueue]
    exact (List.mem_cons.mp hmem).resolve_left hother
  · have ha : s₁.place h' = .active := ha
    rw [Session.setStack_self]
    by_cases hsame : h' = h
    · rw [hsame]
      exact List.mem_cons_self
    · have hmem := hc.active h' (hb.others h' hsame ▸ ha)
      rw [hidle] at hmem
      cases hmem
  · rw [Session.setStack_thread, hstack]
    exact hc.strand t h'
  · rw [Session.setStack_self]
    have htop : s₁.readerPc.onTop = true := htop
    by_cases hreader : h = .reader
    · rw [hreader]
      rfl
    · have hhead := hc.reader (hb.reader hreader ▸ htop)
      rw [hidle] at hhead
      cases hhead

end Changes

section Step

variable [DecidableEq τ] {o : Options} {s s' : Session τ} {a : Agent τ} {k : List Frame}
  {ch : Choice} {es : List Event}

theorem write_control {msg : Buffer} (hc : ControlInv s) (hk : s.stack a = .write msg :: k) :
    ControlInv (write o s a k msg).1 := by
  unfold write
  simp only
  split
  · exact hc.swap rfl hk rfl [] rfl rfl
  · split
    · exact hc.swap rfl hk rfl [] rfl rfl
    · split
      · refine ControlInv.swap ?_ rfl hk rfl [] rfl rfl
        exact hc.keep rfl rfl rfl rfl rfl
      · refine ControlInv.swap ?_ rfl hk rfl [.writeSpawn s.spawned] rfl rfl
        exact hc.forget (.ofWriter rfl rfl rfl rfl) rfl rfl

theorem writeSpawn_control {w : ℕ} (hc : ControlInv s) (hk : s.stack a = .writeSpawn w :: k)
    (h : writeSpawn s a k w ch = some (s', es)) : ControlInv s' := by
  unfold writeSpawn at h
  split at h
  · cases h
    refine ControlInv.swap ?_ rfl hk rfl [] rfl rfl
    exact hc.posts (.ofWriter rfl rfl rfl rfl) rfl rfl
  · cases h
    refine ControlInv.swap ?_ rfl hk rfl [] rfl rfl
    exact hc.forget (.ofWriter rfl rfl rfl rfl) rfl rfl
  · split at h
    · rename_i hstrand
      cases h
      subst hstrand
      exact hc.begins (h := .writer w) hk rfl (.ofWriter rfl rfl rfl rfl) nofun rfl rfl
    · cases h
  · cases h

/-- `stop_async()`, called on top of other plain frames or in the place of its own. -/
theorem stopAsync_control {f : Frame} {k₀ : List Frame} (hc : ControlInv s)
    (hk : s.stack a = f :: k₀) (hf : f.plain = true) (fs : List Frame)
    (hfs : fs.all Frame.plain = true) (hk₀ : k = fs ++ k₀) : ControlInv (stopAsync s a k).1 := by
  subst hk₀
  unfold stopAsync
  split
  · exact hc.swap rfl hk hf fs hfs rfl
  · split
    · refine ControlInv.swap ?_ rfl hk hf fs hfs rfl
      exact hc.keep rfl rfl rfl rfl rfl
    · refine ControlInv.swap ?_ rfl hk hf (.close s.closeCalls :: fs) hfs rfl
      exact hc.keep rfl rfl rfl rfl rfl

theorem close_control {c : ℕ} (hc : ControlInv s) (hk : s.stack a = .close c :: k)
    (h : close s a k c ch = some (s', es)) : ControlInv s' := by
  unfold close at h
  split at h
  · split at h
    · cases h
      exact hc.keep rfl rfl rfl rfl rfl
    · cases h
      refine ControlInv.swap ?_ rfl hk rfl [] rfl rfl
      exact hc.keep rfl rfl rfl rfl rfl
  · split at h
    · split at h
      · cases h
        exact hc.forget (.ofImpl rfl rfl rfl rfl) rfl rfl
      · cases h
        exact hc.keep rfl rfl rfl rfl rfl
    · cases h
      refine ControlInv.swap ?_ rfl hk rfl [] rfl rfl
      exact hc.keep rfl rfl rfl rfl rfl
  · rename_i i _
    split at h
    · cases h
      exact hc.begins (h := .closeImpl i) hk rfl (.ofImpl rfl rfl rfl rfl) nofun rfl rfl
    · cases h
      refine ControlInv.swap ?_ rfl hk rfl [] rfl rfl
      exact hc.posts (.ofImpl rfl rfl rfl rfl) rfl rfl
    · cases h
  · cases h

theorem closeImpl_control {i : ℕ} (hc : ControlInv s) (hk : s.stack a = .closeImpl i :: k)
    (h : closeImpl s a k i = some (s', es)) : ControlInv s' := by
  obtain rfl := hc.eq_strand (.closeImpl i) hk
  have hadvance {s' : Session τ} (hb : Becomes (.closeImpl i) .active s s') :=
    hc.advance (h := .closeImpl i) hk hb
  unfold closeImpl at h
  split at h
  · cases h
    exact hadvance (.ofImpl rfl rfl rfl rfl) rfl rfl
  · cases h
    exact hadvance (.ofImpl rfl rfl rfl rfl) rfl rfl
  · split at h
    · cases h
      exact hadvance (.ofImpl rfl rfl rfl rfl) rfl rfl
    · cases h
      exact hadvance (.ofImpl rfl rfl rfl rfl) rfl rfl
  · cases h
    exact hadvance (.ofImpl rfl rfl rfl rfl) rfl rfl
  · cases h
    exact hc.suspend (h := .closeImpl i) hk (.ofImpl rfl rfl rfl rfl) rfl rfl
  · cases h

theorem start_control (hc : ControlInv s) (hk : s.stack a = .start :: k)
    (h : start o s a k ch = some (s', es)) : ControlInv s' := by
  unfold start at h
  split at h
  · split at h
    · cases h
      exact hc.keep rfl rfl rfl rfl rfl
    · cases h
      refine ControlInv.swap ?_ rfl hk rfl [] rfl rfl
      exact hc.keep rfl rfl rfl rfl rfl
  · split at h
    · cases h
      exact hc.keep rfl rfl rfl rfl rfl
    · split at h
      · cases h
        exact hc.keep rfl rfl rfl rfl rfl
      · cases h
  · cases h
    exact hc.keep rfl rfl rfl rfl rfl
  · cases h
    exact hc.keep rfl rfl rfl rfl rfl
  · cases h
    exact hc.keep rfl rfl rfl rfl rfl
  · split at h
    · cases h
      exact hc.keep rfl rfl rfl rfl rfl
    · cases h
      refine ControlInv.swap ?_ rfl hk rfl [] rfl rfl
      exact hc.posts (.ofReader rfl rfl rfl rfl) rfl rfl
  · cases h
    exact hc.keep rfl rfl rfl rfl rfl
  · cases h
    exact hc.keep rfl rfl rfl rfl rfl
  · -- the call of `stop_async()` goes on top of the frame of `start()`
    have hcatch : ControlInv { s with startPc := .catchWait } := hc.keep rfl rfl rfl rfl rfl
    have hstop := stopAsync_control (k := .start :: k) hcatch hk rfl [.start] rfl rfl
    rw [Option.some.inj h] at hstop
    exact hstop
  · split at h
    · cases h
      refine ControlInv.swap ?_ rfl hk rfl [] rfl rfl
      exact hc.keep rfl rfl rfl rfl rfl
    · cases h
  · cases h

theorem reader_control (hc : ControlInv s) (hk : s.stack a = .reader :: k)
    (h : reader o s k ch = some (s', es)) : ControlInv s' := by
  obtain rfl := hc.eq_strand .reader hk
  have hadvance {s' : Session τ} (hb : Becomes .reader .active s s') :=
    hc.advance (h := .reader) hk hb
  have hsuspend {s' : Session τ} (hb : Becomes .reader .away s s') :=
    hc.suspend (h := .reader) hk hb
  unfold reader at h
  split at h
  · split at h
    · cases h
      exact hadvance (.ofReader rfl rfl rfl rfl) rfl rfl
    · split at h
      · cases h
        exact hadvance (.ofReader rfl rfl rfl rfl) rfl rfl
      · cases h
  · split at h
    · cases h
      exact hsuspend (.ofReader rfl rfl rfl rfl) rfl rfl
    · cases h
      exact hadvance (.ofReader rfl rfl rfl rfl) rfl rfl
  · split at h
    · cases h
      exact hadvance (.ofReader rfl rfl rfl rfl) rfl rfl
    · split at h
      · cases h
        exact hadvance (.ofReader rfl rfl rfl rfl) rfl rfl
      · cases h
        exact hadvance (.ofReader rfl rfl rfl rfl) rfl rfl
  · cases h
    exact hadvance (.ofReader rfl rfl rfl rfl) rfl rfl
  · cases h
    exact hadvance (.ofReader rfl (by split <;> rfl) rfl rfl) rfl rfl
  · cases h
    exact hadvance (.ofReader rfl (by split <;> rfl) rfl rfl) rfl rfl
  · cases h
    exact hadvance (.ofReader rfl rfl rfl rfl) rfl rfl
  · cases h
    exact hc.calls (h := .reader) hk (.ofReader rfl rfl rfl rfl) rfl rfl (fun _ => rfl)
      [.close s.closeCalls] rfl rfl
  · split at h
    · cases h
      exact hsuspend (.ofReader rfl rfl rfl rfl) rfl rfl
    · cases h
  · cases h

theorem writer_control {w : ℕ} (hc : ControlInv s) (hk : s.stack a = .writer w :: k)
    (h : writer o s k w = some (s', es)) : ControlInv s' := by
  obtain rfl := hc.eq_strand (.writer w) hk
  have hadvance {s' : Session τ} (hb : Becomes (.writer w) .active s s') :=
    hc.advance (h := .writer w) hk hb
  have hsuspend {s' : Session τ} (hb : Becomes (.writer w) .away s s') :=
    hc.suspend (h := .writer w) hk hb
  unfold writer at h
  split at h
  · cases h
    exact hadvance (.ofWriter rfl (by split <;> rfl) rfl rfl) rfl rfl
  · split at h
    · cases h
      exact hadvance (.ofWriter rfl rfl rfl rfl) rfl rfl
    · cases h
      exact hsuspend (.ofWriter rfl rfl rfl rfl) rfl rfl
  · cases h
    exact hsuspend (.ofWriter rfl rfl rfl rfl) rfl rfl
  · cases h
    exact hadvance (.ofWriter rfl rfl rfl rfl) rfl rfl
  · cases h
    exact hadvance (.ofWriter rfl rfl rfl rfl) rfl rfl
  · cases h
    exact hadvance (.ofWriter rfl (by split <;> rfl) rfl rfl) rfl rfl
  · cases h
    exact hadvance (.ofWriter rfl rfl rfl rfl) rfl rfl
  · cases h
    exact hc.calls (h := .writer w) hk (.ofWriter rfl rfl rfl rfl) rfl rfl nofun
      [.close s.closeCalls] rfl rfl
  · split at h
    · cases h
      exact hsuspend (.ofWriter rfl rfl rfl rfl) rfl rfl
    · cases h
  · cases h

theorem call_control (hc : ControlInv s) (c : Call)
    (htop : s.readerPc.onTop = true → a ≠ .strand) : ControlInv (call s a c) := by
  have hpush {s₁ : Session τ} (hc₁ : ControlInv s₁) (fs : List Frame)
      (hfs : fs.all Frame.plain = true) (hreader : s₁.readerPc = s.readerPc)
      (hstack : s₁.stack = s.stack) : ControlInv (s₁.setStack a (fs ++ s.stack a)) := by
    refine hc₁.restack (fun h => ?_) fun hon => htop (hreader ▸ hon)
    rw [Handler.frame_mem_append hfs, hstack]
  cases c with
  | write msg => exact hpush hc [.write msg] rfl rfl rfl
  | stopAsync => exact hpush hc [.stopAsync] rfl rfl rfl
  | stopAsyncForce =>
    have hadded : ControlInv (s.addClose .stopAsyncForce) := hc.keep rfl rfl rfl rfl rfl
    exact hpush hadded [.close s.closeCalls] rfl rfl rfl
  | start io =>
    simp only [call]
    split
    · exact hc
    · have hcalled : ControlInv { s with
          startCalled := true, startPc := .compareExchange, startInIoThread := io } :=
        hc.keep rfl rfl rfl rfl rfl
      exact hpush hcalled [.start] rfl rfl rfl

omit [DecidableEq τ] in
/-- User code only runs on the strand inside a callback. -/
theorem ControlInv.ne_strand (hc : ControlInv s) (hcan : s.canCall a = true)
    (hpc : s.readerPc.onTop = true) : a ≠ .strand := by
  rintro rfl
  have hhead := hc.reader hpc
  unfold Session.canCall at hcan
  split at hcan
  · rename_i hk _
    rw [hk] at hhead
    cases hhead
  · cases hcan
  · rename_i f k hk
    rw [hk, List.head?_cons, Option.some.injEq] at hhead
    rw [hhead, Session.inUserCode, decide_eq_true_eq] at hcan
    rw [hcan] at hpc
    cases hpc

theorem runHandler_control {q : List Handler} {h : Handler} (hc : ControlInv s)
    (hidle : s.stack .strand = []) (hq : s.queue = h :: q)
    (hr : runHandler { s with queue := q } h = some s') : ControlInv s' := by
  unfold runHandler at hr
  cases h with
  | reader =>
    simp only at hr
    split at hr
    · cases hr
      exact hc.runs (h := .reader) hidle hq (.ofReader rfl rfl rfl rfl) rfl rfl
    · cases hr
      exact hc.runs (h := .reader) hidle hq (.ofReader rfl rfl rfl rfl) rfl rfl
    · cases hr
  | writer w =>
    simp only at hr
    split at hr
    · cases hr
      exact hc.runs (h := .writer w) hidle hq (.ofWriter rfl rfl rfl rfl) rfl rfl
    · cases hr
      exact hc.runs (h := .writer w) hidle hq (.ofWriter rfl rfl rfl rfl) rfl rfl
    · cases hr
  | closeImpl i =>
    simp only at hr
    split at hr
    · cases hr
      exact hc.runs (h := .closeImpl i) hidle hq (.ofImpl rfl rfl rfl rfl) rfl rfl
    · cases hr

theorem ControlInv.step {act : Action τ} (hc : ControlInv s)
    (h : step o s act = some (s', es)) : ControlInv s' := by
  unfold TcpSession.step at h
  split at h
  · rename_i ag c
    split at h
    · rename_i hcan
      cases h
      exact call_control hc c (hc.ne_strand hcan)
    · cases h
  · rename_i ag ch
    split at h
    · cases h
    · rename_i f k hk
      cases f with
      | write msg =>
        have hw := write_control (o := o) hc hk
        rw [Option.some.inj h] at hw
        exact hw
      | writeSpawn w => exact writeSpawn_control hc hk h
      | stopAsync =>
        have hw := stopAsync_control (k := k) hc hk rfl [] rfl rfl
        rw [Option.some.inj h] at hw
        exact hw
      | close c => exact close_control hc hk h
      | closeImpl i => exact closeImpl_control hc hk h
      | start => exact start_control hc hk h
      | reader => exact reader_control hc hk h
      | writer w => exact writer_control hc hk h
  · split at h
    · rename_i hd q hidle hq
      simp only [Option.map_eq_some_iff, Prod.mk.injEq] at h
      obtain ⟨s₁, hr, rfl, rfl⟩ := h
      exact runHandler_control hc hidle hq hr
    · cases h
  · split at h
    · cases h
      exact hc.posts (.ofReader rfl rfl rfl rfl) rfl rfl
    · cases h
  · split at h
    · split at h
      · cases h
        exact hc.posts (.ofWriter rfl rfl rfl rfl) rfl rfl
      · cases h
    · cases h

end Step

/-! ## Whose turn it is -/

/-- Who executes the step; the completion of an operation only posts to the strand. -/
def Action.agent : Action τ → Agent τ
  | .call a _ | .step a _ => a
  | .runHandler | .readDone _ | .writeDone _ _ => .strand

/-- `start()` has been called and has not ended. -/
def StartPc.live : StartPc → Bool
  | .idle | .returned | .threw => false
  | _ => true

/-- A step of `a` leaves the other stacks alone; the frame of `start()` is not pushed again, and
stays until `start()` ends. -/
structure Turn (a : Agent τ) (s s' : Session τ) : Prop where
  others : ∀ b, b ≠ a → s'.stack b = s.stack b
  start : Frame.start ∈ s'.stack a → Frame.start ∈ s.stack a
  live : Frame.start ∈ s.stack a → s'.startPc.live = true → Frame.start ∈ s'.stack a

theorem Turn.rfl {a : Agent τ} {s s' : Session τ} (hstack : s'.stack = s.stack) : Turn a s s' where
  others b _ := by rw [hstack]
  start h := by rwa [hstack] at h
  live h _ := by rwa [hstack]

section Turn

variable [DecidableEq τ] {s s₁ : Session τ} {a : Agent τ} {f : Frame} {k k' : List Frame}

/-- The frame of `start()` stays where it is. -/
theorem Turn.reframe (hstack : s₁.stack = s.stack)
    (hframes : Frame.start ∈ k' ↔ Frame.start ∈ s.stack a) : Turn a s (s₁.setStack a k') where
  others b hne := by rw [Session.setStack_of_ne hne, hstack]
  start h := by
    rw [Session.setStack_self, hframes] at h
    exact h
  live h _ := by
    rw [Session.setStack_self, hframes]
    exact h

/-- Other frames take the place of one on top. -/
theorem Turn.swap (hstack : s₁.stack = s.stack) (hk : s.stack a = f :: k) (hf : Frame.start ≠ f)
    (fs : List Frame) (hfs : Frame.start ∉ fs) (hk' : k' = fs ++ k) :
    Turn a s (s₁.setStack a k') := by
  refine .reframe hstack ?_
  rw [hk', hk, List.mem_append, List.mem_cons]
  constructor
  · rintro (hmem | hmem)
    · exact absurd hmem hfs
    · exact Or.inr hmem
  · rintro (heq | hmem)
    · exact absurd heq hf
    · exact Or.inr hmem

/-- Other frames are put on top. -/
theorem Turn.push (hstack : s₁.stack = s.stack) (fs : List Frame) (hfs : Frame.start ∉ fs)
    (hk' : k' = fs ++ s.stack a) : Turn a s (s₁.setStack a k') := by
  refine .reframe hstack ?_
  rw [hk', List.mem_append]
  exact ⟨fun hmem => hmem.resolve_left hfs, Or.inr⟩

/-- `start()` ends. -/
theorem Turn.ends (hstack : s₁.stack = s.stack) (hk : s.stack a = .start :: k)
    (hended : s₁.startPc.live = false) : Turn a s (s₁.setStack a k) where
  others b hne := by rw [Session.setStack_of_ne hne, hstack]
  start _ := by
    rw [hk]
    exact List.mem_cons_self
  live _ hlive := by cases hended.symm.trans hlive

end Turn

section Step

variable [DecidableEq τ] {o : Options} {s s' : Session τ} {a : Agent τ} {k : List Frame}
  {ch : Choice} {es : List Event}

theorem write_turn {msg : Buffer} (hk : s.stack a = .write msg :: k) :
    Turn a s (write o s a k msg).1 := by
  unfold write
  simp only
  split
  · exact .swap rfl hk nofun [] List.not_mem_nil rfl
  · split
    · exact .swap rfl hk nofun [] List.not_mem_nil rfl
    · split
      · exact .swap rfl hk nofun [] List.not_mem_nil rfl
      · exact .swap rfl hk nofun [.writeSpawn s.spawned] (by simp) rfl

theorem writeSpawn_turn {w : ℕ} (hk : s.stack a = .writeSpawn w :: k)
    (h : writeSpawn s a k w ch = some (s', es)) : Turn a s s' := by
  unfold writeSpawn at h
  split at h
  · cases h
    exact .swap rfl hk nofun [] List.not_mem_nil rfl
  · cases h
    exact .swap rfl hk nofun [] List.not_mem_nil rfl
  · split at h
    · cases h
      exact .swap rfl hk nofun [.writer w] (by simp) rfl
    · cases h
  · cases h

theorem stopAsync_turn (hframes : Frame.start ∈ k ↔ Frame.start ∈ s.stack a) :
    Turn a s (stopAsync s a k).1 := by
  unfold stopAsync
  split
  · exact .reframe rfl hframes
  · split
    · exact .reframe rfl hframes
    · refine .reframe rfl ?_
      rw [← hframes, List.mem_cons]
      exact ⟨fun hmem => hmem.resolve_left nofun, Or.inr⟩

theorem close_turn {c : ℕ} (hk : s.stack a = .close c :: k)
    (h : close s a k c ch = some (s', es)) : Turn a s s' := by
  unfold close at h
  split at h
  · split at h
    · cases h
      exact .rfl rfl
    · cases h
      exact .swap rfl hk nofun [] List.not_mem_nil rfl
  · split at h
    · split at h
      · cases h
        exact .rfl rfl
      · cases h
        exact .rfl rfl
    · cases h
      exact .swap rfl hk nofun [] List.not_mem_nil rfl
  · rename_i i _
    split at h
    · cases h
      exact .swap rfl hk nofun [.closeImpl i] (by simp) rfl
    · cases h
      exact .swap rfl hk nofun [] List.not_mem_nil rfl
    · cases h
  · cases h

theorem closeImpl_turn {i : ℕ} (hk : s.stack a = .closeImpl i :: k)
    (h : closeImpl s a k i = some (s', es)) : Turn a s s' := by
  unfold closeImpl at h
  split at h
  · cases h
    exact .rfl rfl
  · cases h
    exact .rfl rfl
  · split at h
    · cases h
      exact .rfl rfl
    · cases h
      exact .rfl rfl
  · cases h
    exact .rfl rfl
  · cases h
    exact .swap rfl hk nofun [] List.not_mem_nil rfl
  · cases h

theorem start_turn (hk : s.stack a = .start :: k) (h : start o s a k ch = some (s', es)) :
    Turn a s s' := by
  unfold start at h
  split at h
  · split at h
    · cases h
      exact .rfl rfl
    · cases h
      exact .ends rfl hk rfl
  · split at h
    · cases h
      exact .rfl rfl
    · split at h
      · cases h
        exact .rfl rfl
      · cases h
  · cases h
    exact .rfl rfl
  · cases h
    exact .rfl rfl
  · cases h
    exact .rfl rfl
  · split at h
    · cases h
      exact .rfl rfl
    · cases h
      exact .ends rfl hk rfl
  · cases h
    exact .rfl rfl
  · cases h
    exact .rfl rfl
  · -- the call of `stop_async()` goes on top
    have hstop : Turn a { s with startPc := .catchWait }
        (stopAsync { s with startPc := .catchWait } a (.start :: k)).1 :=
      stopAsync_turn (by rw [← hk])
    rw [Option.some.inj h] at hstop
    exact ⟨hstop.others, hstop.start, hstop.live⟩
  · split at h
    · cases h
      exact .ends rfl hk rfl
    · cases h
  · cases h

theorem reader_turn (hk : s.stack .strand = .reader :: k)
    (h : reader o s k ch = some (s', es)) : Turn .strand s s' := by
  unfold reader at h
  split at h
  · split at h
    · cases h
      exact .rfl rfl
    · split at h
      · cases h
        exact .rfl rfl
      · cases h
  · split at h
    · cases h
      exact .swap rfl hk nofun [] List.not_mem_nil rfl
    · cases h
      exact .rfl rfl
  · split at h
    · cases h
      exact .rfl rfl
    · split at h
      · cases h
        exact .rfl rfl
      · cases h
        exact .rfl rfl
  · cases h
    exact .rfl rfl
  · cases h
    exact .rfl rfl
  · cases h
    exact .rfl rfl
  · cases h
    exact .rfl rfl
  · cases h
    exact .push rfl [.close s.closeCalls] (by simp) (by rw [hk]; rfl)
  · split at h
    · cases h
      exact .swap rfl hk nofun [] List.not_mem_nil rfl
    · cases h
  · cases h

theorem writer_turn {w : ℕ} (hk : s.stack .strand = .writer w :: k)
    (h : writer o s k w = some (s', es)) : Turn .strand s s' := by
  unfold writer at h
  split at h
  · cases h
    exact .rfl rfl
  · split at h
    · cases h
      exact .rfl rfl
    · cases h
      exact .swap rfl hk nofun [] List.not_mem_nil rfl
  · cases h
    exact .swap rfl hk nofun [] List.not_mem_nil rfl
  · cases h
    exact .rfl rfl
  · cases h
    exact .rfl rfl
  · cases h
    exact .rfl rfl
  · cases h
    exact .rfl rfl
  · cases h
    exact .push rfl [.close s.closeCalls] (by simp) (by rw [hk]; rfl)
  · split at h
    · cases h
      exact .swap rfl hk nofun [] List.not_mem_nil rfl
    · cases h
  · cases h

theorem call_turn (c : Call) (hcalled : s.startCalled = true) : Turn a s (call s a c) := by
  cases c with
  | write msg => exact .push rfl [.write msg] (by simp) rfl
  | stopAsync => exact .push rfl [.stopAsync] (by simp) rfl
  | stopAsyncForce => exact .push rfl [.close s.closeCalls] (by simp) rfl
  | start io =>
    rw [call, if_pos hcalled]
    exact .rfl rfl

theorem runHandler_turn {q : List Handler} {h : Handler} (hidle : s.stack .strand = [])
    (hr : runHandler { s with queue := q } h = some s') : Turn .strand s s' := by
  unfold runHandler at hr
  cases h with
  | reader =>
    simp only at hr
    split at hr
    · cases hr
      exact .push rfl [.reader] (by simp) (by rw [hidle]; rfl)
    · cases hr
      exact .push rfl [.reader] (by simp) (by rw [hidle]; rfl)
    · cases hr
  | writer w =>
    simp only at hr
    split at hr
    · cases hr
      exact .push rfl [.writer w] (by simp) (by rw [hidle]; rfl)
    · cases hr
      exact .push rfl [.writer w] (by simp) (by rw [hidle]; rfl)
    · cases hr
  | closeImpl i =>
    simp only at hr
    split at hr
    · cases hr
      exact .push rfl [.closeImpl i] (by simp) (by rw [hidle]; rfl)
    · cases hr

/-- **A step is one turn of its agent.** -/
theorem step_turn {act : Action τ} (hc : ControlInv s) (hcalled : s.startCalled = true)
    (h : step o s act = some (s', es)) : Turn act.agent s s' := by
  unfold TcpSession.step at h
  split at h
  · split at h <;> cases h
    exact call_turn _ hcalled
  · rename_i ag ch
    show Turn ag s s'
    split at h
    · cases h
    · rename_i f k hk
      cases f with
      | write msg =>
        have hw := write_turn (o := o) hk
        rw [Option.some.inj h] at hw
        exact hw
      | writeSpawn w => exact writeSpawn_turn hk h
      | stopAsync =>
        have hframes : Frame.start ∈ k ↔ Frame.start ∈ s.stack ag := by
          rw [hk, List.mem_cons]
          exact ⟨Or.inr, fun hmem => hmem.resolve_left nofun⟩
        have hw := stopAsync_turn hframes
        rw [Option.some.inj h] at hw
        exact hw
      | close c => exact close_turn hk h
      | closeImpl i => exact closeImpl_turn hk h
      | start => exact start_turn hk h
      | reader =>
        obtain rfl := hc.eq_strand .reader hk
        exact reader_turn hk h
      | writer w =>
        obtain rfl := hc.eq_strand (.writer w) hk
        exact writer_turn hk h
  · split at h
    · rename_i hidle _
      simp only [Option.map_eq_some_iff, Prod.mk.injEq] at h
      obtain ⟨s₁, hr, rfl, rfl⟩ := h
      exact runHandler_turn hidle hr
    · cases h
  · split at h <;> cases h
    exact .rfl rfl
  · split at h
    · split at h <;> cases h
      exact .rfl rfl
    · cases h

end Step

/-! ## Runs -/

section Runs

variable [DecidableEq τ] {C : Session τ → Action τ → Prop} {o : Options} {tr : List Event}
  {s : Session τ}

theorem controlInv (h : (system τ o).Run C tr s) : ControlInv s := by
  refine Run.invariant (I := fun _ s => ControlInv s) .initial ?_ h
  intro tr s a s' es _ _ hst ih
  exact ih.step hst

end Runs

end TcpSession
