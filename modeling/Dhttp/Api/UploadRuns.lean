import Dhttp.Api.UploadChannel

namespace Dhttp.Api
open Dhttp.Lib
set_option autoImplicit true

section Locking
variable {I : Type} {s s' : Upload I}

/-- Who is inside has the lock, who has been put aside waits for something, and nobody is inside
once the sender is gone. -/
structure Locked (s : Upload I) : Prop where
  exclusive : Exclusive UploadPc.Holds s.lock s.pc
  awaits : ∀ i stage, s.pc i = .running stage false → stage.Awaits
  unlocked : s.sender = false → s.lock = none

theorem Locked.lock_eq (h : Locked s) (hp : s.pc i = .running stage polled)
    (hs : stage.Holds) : s.lock = some i :=
  (h.exclusive i).1 (by rw [hp]; exact hs)

variable [DecidableEq I] {call : I → UploadCall}

theorem awaits_update {pc : I → UploadPc}
    (h : ∀ i stage, pc i = .running stage false → stage.Awaits)
    (hp : ∀ stage, p = .running stage false → stage.Awaits) :
    ∀ j stage, Function.update pc i p j = .running stage false → stage.Awaits := by
  intro j stage hj
  by_cases he : j = i
  · rw [he, Function.update_self] at hj
    exact hp stage hj
  · rw [Function.update_of_ne he] at hj
    exact h j stage hj

theorem leave_locked (h : Locked s) (hp : s.pc i = .running stage polled) (hn : ¬ p.Holds) :
    Locked (s.leave i stage p) := by
  have hrunning : ∀ stage, p = .running stage false → stage.Awaits := by
    rintro stage rfl
    cases stage with
    | waiting => nofun
    | sending rest => exact absurd trivial hn
    | finishing => nofun
  refine ⟨?_, awaits_update h.awaits hrunning, fun hs => ?_⟩
  · cases stage with
    | waiting => exact h.exclusive.keep (by rw [hp]; exact iff_of_false hn id)
    | sending rest =>
      have hlock := h.exclusive
      rw [h.lock_eq hp trivial] at hlock
      exact hlock.release hn
    | finishing =>
      have hlock := h.exclusive
      rw [h.lock_eq hp trivial] at hlock
      exact hlock.release hn
  · by_cases hw : stage = .waiting
    · exact (if_pos hw).trans (h.unlocked hs)
    · exact if_neg hw

theorem locked_step (h : Locked s) (hs : UploadStep call s e s') : Locked s' := by
  cases hs with
  | start hp hw =>
    exact ⟨h.exclusive.keep (by rw [hp]; exact Iff.rfl),
      awaits_update h.awaits (by rintro stage ⟨⟩; nofun), h.unlocked⟩
  | poll hp hc =>
    exact ⟨h.exclusive.keep (by rw [hp]; exact Iff.rfl), awaits_update h.awaits nofun, h.unlocked⟩
  | giveUp hp hc => exact leave_locked h hp id
  | pend hp ha =>
    refine ⟨h.exclusive.keep (by rw [hp]; exact Iff.rfl), awaits_update h.awaits ?_, h.unlocked⟩
    rintro stage ⟨⟩
    exact ha
  | lockFinished hp hl hs =>
    exact ⟨h.exclusive.keep (by rw [hp]; exact Iff.rfl), awaits_update h.awaits nofun, h.unlocked⟩
  | lockSend hp hl hs hi =>
    have hlock := h.exclusive
    rw [hl] at hlock
    exact ⟨hlock.take _ trivial, awaits_update h.awaits nofun,
      fun hn => absurd (hs.symm.trans hn) nofun⟩
  | lockFinish hp hl hs hi =>
    have hlock := h.exclusive
    rw [hl] at hlock
    exact ⟨hlock.take _ trivial, awaits_update h.awaits nofun,
      fun hn => absurd (hs.symm.trans hn) nofun⟩
  | enqueue hp ho hq =>
    exact ⟨h.exclusive.keep (by rw [hp]; exact Iff.rfl), awaits_update h.awaits nofun, h.unlocked⟩
  | complete hp =>
    have hleave := leave_locked (p := .returned (.ok ())) h hp id
    exact ⟨hleave.exclusive, hleave.awaits, hleave.unlocked⟩
  | mark hp hi ho hq =>
    have hleave := leave_locked (p := .returned (.ok ())) h hp id
    exact ⟨hleave.exclusive, hleave.awaits, fun _ => rfl⟩
  | hangUp hp hs ha ho => exact leave_locked h hp id
  | drop hp => exact leave_locked h hp id
  | unwind hp =>
    exact ⟨h.exclusive.keep (by rw [hp]; exact Iff.rfl), awaits_update h.awaits nofun, h.unlocked⟩
  | fail hw => exact ⟨h.exclusive, h.awaits, h.unlocked⟩
  | dropWriter hw hp =>
    refine ⟨h.exclusive, h.awaits, fun _ => ?_⟩
    cases hl : s.lock with
    | none => rfl
    | some i =>
      have hholds := (h.exclusive i).2 hl
      have hover := hp i
      cases hi : s.pc i <;> rw [hi] at hholds hover <;> first | exact hholds.elim | exact hover.elim
  | pollEnded | pollCancelled | pollFrame | receiveData | receiveFinish | receiveDropped
    | pendFrame => exact ⟨h.exclusive, h.awaits, h.unlocked⟩

end Locking

section Accounting
variable {I : Type} {call : I → UploadCall} {s s' : Upload I}

def dataOf (yielded : List PollFrame) : List Bytes :=
  yielded.filterMap fun | .data bytes => some bytes | _ => none

def queuedData (queue : List UploadFrame) : List Bytes :=
  queue.filterMap fun | .data bytes => some bytes | .finish _ => none

def sentChunks (call : I → UploadCall) (i : I) : List Bytes :=
  match call i with
  | .send bytes => chunks chunkBytes bytes
  | .finish _ => []

def UploadPc.rest : UploadPc → List Bytes
  | .running stage _ => stage.rest
  | _ => []

def UploadStage.isSending : UploadStage → Bool
  | .sending _ => true
  | .waiting | .finishing => false

def UploadPc.isSending : UploadPc → Bool
  | .running stage _ => stage.isSending
  | _ => false

namespace Upload

/-- The chunks that the call inside has left. -/
def rest (s : Upload I) : List Bytes := s.lock.elim [] fun i => (s.pc i).rest

/-- The send inside. -/
def current (s : Upload I) : List I := s.lock.toList.filter fun i => (s.pc i).isSending

/-- The data that has gone through the channel. -/
def passed (s : Upload I) : List Bytes := dataOf s.yielded ++ queuedData s.queue

theorem rest_of_none (h : s.lock = none) : s.rest = [] := by rw [rest, h, Option.elim_none]

theorem rest_of_lock (h : s.lock = some i) (hp : s.pc i = p) : s.rest = p.rest := by
  rw [rest, h, Option.elim_some, hp]

theorem current_of_none (h : s.lock = none) : s.current = [] := by rw [current, h]; rfl

theorem current_of_lock (h : s.lock = some i) (hp : s.pc i = p) :
    s.current = if p.isSending then [i] else [] := by
  rw [current, h, Option.toList_some, List.filter_singleton, hp, Bool.cond_eq_ite]

variable [DecidableEq I]

theorem rest_go (s : Upload I) (h : p.rest = (s.pc i).rest) : (s.go i p).rest = s.rest := by
  rw [rest, rest, go]
  cases s.lock with
  | none => rfl
  | some j =>
    by_cases hj : j = i
    · simpa [hj] using h
    · simp [Function.update_of_ne hj]

theorem current_go (s : Upload I) (h : p.isSending = (s.pc i).isSending) :
    (s.go i p).current = s.current := by
  apply List.filter_congr
  intro j _
  change (Function.update s.pc i p j).isSending = (s.pc j).isSending
  by_cases hj : j = i
  · rw [hj, Function.update_self, h]
  · rw [Function.update_of_ne hj]

end Upload

/-- What has passed is what was sent, in the order of the sends. -/
structure Accounted (call : I → UploadCall) (s : Upload I) : Prop where
  inOrder : s.passed <+: s.acquired.flatMap (sentChunks call)
  whole : s.abandoned = false → s.passed ++ s.rest = s.acquired.flatMap (sentChunks call) ∧
    s.acquired = s.completed ++ s.current

/-- Who is put aside while sending has chunks left. -/
theorem Locked.leaves (hl : Locked s) (hp : s.pc i = .running stage false) :
    stage = .waiting ∨ stage = .finishing ∨ stage.rest ≠ [] := by
  cases stage with
  | waiting => exact .inl rfl
  | finishing => exact .inr (.inl rfl)
  | sending rest =>
    refine .inr (.inr fun hr => hl.awaits i _ hp ?_)
    exact congrArg UploadStage.sending hr

theorem dataOf_append (yielded yielded' : List PollFrame) :
    dataOf (yielded ++ yielded') = dataOf yielded ++ dataOf yielded' := List.filterMap_append

/-- What the body yields other than data is not counted. -/
theorem passed_of_yield {s s' : Upload I} (hy : s'.yielded = s.yielded ++ [frame])
    (hq : s'.queue = s.queue) (hf : dataOf [frame] = []) : s'.passed = s.passed := by
  rw [Upload.passed, Upload.passed, hy, hq, dataOf_append, hf, List.append_nil]

/-- A body step that keeps what has passed changes no account. -/
theorem accounted_of_passed (h : Accounted call s) (hp : s'.passed = s.passed)
    (hs : s' = { s with
      yielded := s'.yielded, queue := s'.queue, closed := s'.closed, ended := s'.ended
      polled := s'.polled, state := s'.state, sender := s'.sender
      writer := s'.writer }) : Accounted call s' := by
  rw [hs] at hp ⊢
  exact ⟨by rw [hp]; exact h.inOrder, fun ha => by rw [hp]; exact h.whole ha⟩

variable [DecidableEq I]

/-- A call that leaves with nothing left to enqueue changes no account. -/
theorem leave_accounted (hl : Locked s) (h : Accounted call s)
    (hp : s.pc i = .running stage polled) (hw : stage = .waiting ∨ stage = .finishing ∨
      stage.rest ≠ []) (hr : p.rest = []) (hn : p.isSending = false) :
    Accounted call (s.leave i stage p) := by
  refine ⟨h.inOrder, fun ha => ?_⟩
  have ha' : s.abandoned = false ∧ stage.rest = [] := by
    simpa [Upload.leave] using ha
  obtain ⟨hpassed, hacquired⟩ := h.whole ha'.1
  obtain rfl | rfl | hne := hw
  · have hrest : (s.leave i .waiting p).rest = s.rest :=
      s.rest_go (by rw [hr, hp]; rfl)
    have hcurrent : (s.leave i .waiting p).current = s.current :=
      s.current_go (by rw [hn, hp]; rfl)
    rw [hrest, hcurrent]
    exact ⟨hpassed, hacquired⟩
  · have hlock := hl.lock_eq hp trivial
    rw [Upload.rest_of_lock hlock hp] at hpassed
    rw [Upload.current_of_lock hlock hp] at hacquired
    exact ⟨hpassed, hacquired⟩
  · exact absurd ha'.2 hne

theorem go_accounted (h : Accounted call s) (hr : p.rest = (s.pc i).rest)
    (hn : p.isSending = (s.pc i).isSending) : Accounted call (s.go i p) := by
  refine ⟨h.inOrder, fun ha => ?_⟩
  rw [s.rest_go hr, s.current_go hn]
  exact h.whole ha

theorem queuedData_append (queue queue' : List UploadFrame) :
    queuedData (queue ++ queue') = queuedData queue ++ queuedData queue' := List.filterMap_append

theorem dataOf_endFrame (trailers : HeaderMap) : dataOf [endFrame trailers] = [] := by
  rw [endFrame]
  split <;> rfl

theorem accounted_step (hl : Locked s) (h : Accounted call s) (hs : UploadStep call s e s')
    (ha : e = .enqueue → s.abandoned = false) : Accounted call s' := by
  cases hs with
  | start hp hw => exact go_accounted h (by rw [hp]; rfl) (by rw [hp]; rfl)
  | poll hp hc => exact go_accounted h (by rw [hp]; rfl) (by rw [hp]; rfl)
  | giveUp hp hc => exact leave_accounted hl h hp (hl.leaves hp) rfl rfl
  | pend hp ha => exact go_accounted h (by rw [hp]; rfl) (by rw [hp]; rfl)
  | lockFinished hp hlock hs => exact go_accounted h (by rw [hp]; rfl) (by rw [hp]; rfl)
  | @lockSend i bytes hp hlock hs hi =>
    have hsent : sentChunks call i = chunks chunkBytes bytes := by rw [sentChunks, hi]
    refine ⟨h.inOrder.trans ?_, fun ha => ?_⟩
    · rw [List.flatMap_append]
      exact List.prefix_append ..
    · obtain ⟨hpassed, hacquired⟩ := h.whole ha
      rw [Upload.rest_of_none hlock, List.append_nil] at hpassed
      rw [Upload.current_of_none hlock, List.append_nil] at hacquired
      rw [Upload.rest_of_lock rfl (Function.update_self ..),
        Upload.current_of_lock rfl (Function.update_self ..), List.flatMap_append, ← hpassed,
        hacquired, List.flatMap_singleton, hsent]
      exact ⟨rfl, rfl⟩
  | lockFinish hp hlock hs hi =>
    refine ⟨h.inOrder, fun ha => ?_⟩
    obtain ⟨hpassed, hacquired⟩ := h.whole ha
    rw [Upload.rest_of_none hlock] at hpassed
    rw [Upload.current_of_none hlock] at hacquired
    rw [Upload.rest_of_lock rfl (Function.update_self ..),
      Upload.current_of_lock rfl (Function.update_self ..)]
    exact ⟨hpassed, hacquired⟩
  | @enqueue i chunk rest hp ho hq =>
    have hlock := hl.lock_eq hp trivial
    obtain ⟨hpassed, hacquired⟩ := h.whole (ha rfl)
    rw [Upload.rest_of_lock hlock hp] at hpassed
    rw [Upload.current_of_lock hlock hp] at hacquired
    have hwhole : (s.passed ++ [chunk]) ++ rest = s.acquired.flatMap (sentChunks call) := by
      rw [List.append_assoc]
      exact hpassed
    have hnow : dataOf s.yielded ++ queuedData (s.queue ++ [.data chunk]) =
        s.passed ++ [chunk] := by
      rw [queuedData_append, ← List.append_assoc]
      rfl
    refine ⟨?_, fun _ => ⟨?_, ?_⟩⟩
    · change dataOf s.yielded ++ queuedData (s.queue ++ [.data chunk]) <+: _
      rw [hnow]
      change _ <+: s.acquired.flatMap (sentChunks call)
      rw [← hwhole]
      exact List.prefix_append ..
    · have hrest : Upload.rest { s.go i (.running (.sending rest) true) with
          queue := s.queue ++ [.data chunk] } = rest :=
        Upload.rest_of_lock (p := .running (.sending rest) true) (by exact hlock)
          (Function.update_self ..)
      rw [hrest]
      change dataOf s.yielded ++ queuedData (s.queue ++ [.data chunk]) ++ rest = _
      rw [hnow]
      exact hwhole
    · have hcurrent : Upload.current { s.go i (.running (.sending rest) true) with
          queue := s.queue ++ [.data chunk] } = [i] :=
        Upload.current_of_lock (p := .running (.sending rest) true) (by exact hlock)
          (Function.update_self ..)
      rw [hcurrent]
      exact hacquired
  | complete hp =>
    have hlock := hl.lock_eq hp trivial
    refine ⟨h.inOrder, fun ha => ?_⟩
    have ha' : s.abandoned = false := (Bool.or_eq_false_iff.1 ha).1
    obtain ⟨hpassed, hacquired⟩ := h.whole ha'
    rw [Upload.rest_of_lock hlock hp] at hpassed
    rw [Upload.current_of_lock hlock hp] at hacquired
    rw [Upload.rest_of_none rfl, Upload.current_of_none rfl, List.append_nil]
    exact ⟨(List.append_nil _).symm.trans hpassed, hacquired.trans (List.append_nil _).symm⟩
  | @mark i trailers hp hi ho hq =>
    have hleave := leave_accounted (p := .returned (.ok ())) hl h hp (.inr (.inl rfl)) rfl rfl
    have hnow : dataOf s.yielded ++ queuedData (s.queue ++ [.finish trailers]) = s.passed := by
      rw [queuedData_append]
      exact congrArg _ (List.append_nil _)
    refine ⟨?_, fun ha => ?_⟩
    · change dataOf s.yielded ++ queuedData (s.queue ++ [.finish trailers]) <+: _
      rw [hnow]
      exact h.inOrder
    · obtain ⟨hpassed, hacquired⟩ := hleave.whole ha
      refine ⟨?_, hacquired⟩
      change dataOf s.yielded ++ queuedData (s.queue ++ [.finish trailers]) ++ _ = _
      rw [hnow]
      exact hpassed
  | @hangUp i stage hp hs hw ho =>
    refine leave_accounted hl h hp ?_ rfl rfl
    cases stage with
    | waiting => exact .inl rfl
    | finishing => exact .inr (.inl rfl)
    | sending rest => exact .inr (.inr fun hr => hw (congrArg UploadStage.sending hr))
  | drop hp => exact leave_accounted hl h hp (hl.leaves hp) rfl rfl
  | unwind hp =>
    have hfail : Accounted call (s.fail .ofCancelled) := accounted_of_passed h rfl rfl
    exact go_accounted hfail (by rw [Upload.fail, hp]; rfl) (by rw [Upload.fail, hp]; rfl)
  | fail hw => exact accounted_of_passed h rfl rfl
  | dropWriter hw hp => exact accounted_of_passed h rfl rfl
  | pollEnded hp he => exact accounted_of_passed h (passed_of_yield rfl rfl rfl) rfl
  | pollCancelled hp he hc => exact accounted_of_passed h (passed_of_yield rfl rfl rfl) rfl
  | pollFrame hp he hc => exact accounted_of_passed h rfl rfl
  | receiveData hp hq =>
    refine accounted_of_passed h ?_ rfl
    rw [Upload.passed, Upload.passed, dataOf_append, hq, List.append_assoc]
    rfl
  | receiveFinish hp hq =>
    refine accounted_of_passed h ?_ rfl
    rw [Upload.passed, Upload.passed, dataOf_append, dataOf_endFrame, hq, List.append_nil]
    rfl
  | receiveDropped hp hq hs => exact accounted_of_passed h (passed_of_yield rfl rfl rfl) rfl
  | pendFrame hp => exact accounted_of_passed h rfl rfl

end Accounting

end Dhttp.Api
