import Dhttp.Api.ServerExchange

namespace Dhttp.Api
open Dhttp.Lib
set_option autoImplicit true

section Runs
variable {R : Type} {s s' t : ServerExchange R} {refusal : R} {handled : Handled R}

namespace ServePc

/-- The handler or the body is being polled. -/
def Polls : ServePc → Prop
  | handling polled | answered polled => polled = true
  | _ => False

/-- The operation is there while the call lasts, then as long as the body is. -/
def Owns (body : Option (Nat → PollFrame)) : ServePc → Prop
  | reading | handling _ | interrupted => True
  | answered _ => body ≠ none
  | registering | failed _ | dropped => False

end ServePc

/-- The first `n` frames of a body. -/
def framesOf (body : Nat → PollFrame) (n : Nat) : List PollFrame := (List.range n).map body

/-- What follows the first `n` frames: nothing as long as the body is there, then its end or an
error, then nothing but ends. -/
inductive ServedTail (body : Nat → PollFrame) (n : Nat) (cancelled : Bool) :
    Bool → List PollFrame → Prop
  | going : ServedTail body n cancelled false []
  | last (hb : ¬ (body n).IsFrame) : ServedTail body n cancelled true [body n]
  | closed (hc : cancelled = true) : ServedTail body n cancelled true [.error closedError]
  | gone (h : ServedTail body n cancelled true tail) :
    ServedTail body n cancelled true (tail ++ [.none])

theorem framesOf_succ (body : Nat → PollFrame) (n : Nat) :
    framesOf body (n + 1) = framesOf body n ++ [body n] := by
  rw [framesOf, List.range_succ, List.map_append]
  rfl

theorem ServedTail.mono (h : ServedTail body n cancelled ended tail)
    (hc : cancelled = true → cancelled' = true) : ServedTail body n cancelled' ended tail := by
  induction h with
  | going => exact .going
  | last hb => exact .last hb
  | closed h => exact .closed (hc h)
  | gone _ ih => exact .gone ih

theorem ServedTail.eq_nil (h : ServedTail body n cancelled false tail) : tail = [] := by
  cases h
  rfl

/-- What the polls have yielded, as long as the body is there (`ended` is false) and afterwards. -/
def Yielded (body : Nat → PollFrame) (s : ServerExchange R) (ended : Bool) : Prop :=
  ∃ tail, s.yielded = framesOf body s.taken ++ tail ∧
    ServedTail body s.taken s.state.cancelled ended tail

/-- Nothing has come of the call. -/
structure Unanswered (s : ServerExchange R) : Prop where
  response : s.response = none
  owned : s.body = none
  taken : s.taken = 0
  yielded : s.yielded = []

/-- The response has been given, and what its body has yielded is known. -/
structure Answered (refusal : R) (handled : Handled R) (s : ServerExchange R) (ended : Bool) :
    Prop where
  response : s.response = some (handled.answer refusal)
  owned : ∀ body, s.body = some body → ended = false ∧ body = (handled.answer refusal).2
  frames : Frames (handled.answer refusal).2 s.taken
  yielded : Yielded (handled.answer refusal).2 s ended

/-- What is kept of an exchange, by the place of its call. -/
def ServePc.Keeps (refusal : R) (handled : Handled R) (s : ServerExchange R) : ServePc → Prop
  | registering => s.operation = false ∧ Unanswered s
  | reading | handling _ => s.operation = true ∧ Unanswered s
  | interrupted => s.operation = true ∧ Unanswered s ∧ s.state.cancelled = true
  | failed error => s.operation = false ∧ Unanswered s ∧ error = closedError ∧
      (s.closed = true ∨ s.state.cancelled = true)
  | answered true => s.operation = true ∧ s.body ≠ none ∧ Answered refusal handled s false
  | answered false => s.operation = s.body.isSome ∧ Answered refusal handled s s.isEndStream
  | dropped => s.operation = false ∧ s.body = none ∧
      (Unanswered s ∨ ∃ ended, Answered refusal handled s ended)

structure Serving (refusal : R) (handled : Handled R) (s : ServerExchange R) : Prop where
  state : s.state.firstError = none ∧ s.state.cancelled = s.state.ownerCancelled
  keeps : s.pc.Keeps refusal handled s

theorem serving_start : Serving refusal handled (serverExchange R) :=
  ⟨⟨rfl, rfl⟩, rfl, rfl, rfl, rfl, rfl⟩

/-- The error of a cancelled operation is that of the closed handle. -/
theorem Serving.error (h : Serving refusal handled s) (hc : s.state.cancelled = true) :
    s.state.error = closedError := by
  rw [OperationState.error, h.state.1, ← h.state.2, hc]
  rfl

theorem Serving.at (h : Serving refusal handled s) (hp : s.pc = pc) :
    pc.Keeps refusal handled s := hp ▸ h.keeps

theorem serving_serve (h : Serving refusal handled s) (hs : ServeStep refusal handled s s') :
    Serving refusal handled s' := by
  refine ⟨?_, ?_⟩
  · cases hs <;> exact h.state
  cases hs with
  | register hp hc =>
    obtain ⟨_, hu⟩ := h.at hp
    exact ⟨rfl, hu.response, hu.owned, hu.taken, hu.yielded⟩
  | refuse hp hc =>
    obtain ⟨ho, hu⟩ := h.at hp
    exact ⟨ho, ⟨hu.response, hu.owned, hu.taken, hu.yielded⟩, rfl, .inl hc⟩
  | refuseReading hp hc =>
    obtain ⟨ho, hu⟩ := h.at hp
    exact ⟨rfl, ⟨hu.response, rfl, hu.taken, hu.yielded⟩, rfl, .inl hc⟩
  | read hp | poll hp | pend hp =>
    obtain ⟨ho, hu⟩ := h.at hp
    exact ⟨ho, hu.response, hu.owned, hu.taken, hu.yielded⟩
  | interrupt hp hc =>
    obtain ⟨ho, hu⟩ := h.at hp
    exact ⟨ho, ⟨hu.response, hu.owned, hu.taken, hu.yielded⟩, hc⟩
  | readError hp =>
    obtain ⟨ho, hu, hc⟩ := h.at hp
    exact ⟨rfl, ⟨hu.response, rfl, hu.taken, hu.yielded⟩, h.error hc, .inr hc⟩
  | answer hp =>
    obtain ⟨ho, hu⟩ := h.at hp
    refine ⟨ho, rfl, ?_, ?_, [], ?_, .going⟩
    · intro body hb
      exact ⟨rfl, (Option.some.inj hb).symm⟩
    · intro m hm
      have hlt : m < s.taken := hm
      rw [hu.taken] at hlt
      exact absurd hlt m.not_lt_zero
    · change s.yielded = framesOf _ s.taken ++ []
      rw [hu.yielded, hu.taken]
      rfl
  | drop hp =>
    have hu : Unanswered s := by
      obtain hp | hp := hp
      · exact (h.at hp).2
      · exact (h.at hp).2
    exact ⟨rfl, rfl, .inl ⟨hu.response, rfl, hu.taken, hu.yielded⟩⟩

theorem Answered.of_owned (h : Answered refusal handled s ended) (hb : s.body = some body) :
    Answered refusal handled s false ∧ body = (handled.answer refusal).2 := by
  obtain ⟨rfl, hbody⟩ := h.owned body hb
  exact ⟨h, hbody⟩

/-- The body is gone with the last that its polls yield. -/
theorem Answered.last (h : Answered refusal handled s false)
    (ht : ServedTail (handled.answer refusal).2 s.taken s.state.cancelled true [frame]) :
    Answered refusal handled (s.release.yield frame) true := by
  obtain ⟨tail, hy, htail⟩ := h.yielded
  refine ⟨h.response, nofun, h.frames, [frame], ?_, ht⟩
  change s.yielded ++ [frame] = _
  rw [hy, htail.eq_nil, List.append_nil]
  rfl

theorem Answered.frame (h : Answered refusal handled s false) (hb : s.body = some body)
    (hf : (body s.taken).IsFrame) : Answered refusal handled
      { (s.go (.answered false)).yield (body s.taken) with taken := s.taken + 1 } false := by
  obtain ⟨_, rfl⟩ := h.owned body hb
  obtain ⟨tail, hy, htail⟩ := h.yielded
  refine ⟨h.response, h.owned, h.frames.succ hf, [], ?_, .going⟩
  change s.yielded ++ [_] = framesOf _ (s.taken + 1) ++ []
  rw [framesOf_succ, hy, htail.eq_nil, List.append_nil, List.append_nil]

theorem Answered.gone (h : Answered refusal handled s true) :
    Answered refusal handled (s.yield .none) true := by
  obtain ⟨tail, hy, htail⟩ := h.yielded
  refine ⟨h.response, h.owned, h.frames, tail ++ [PollFrame.none], ?_, ServedTail.gone htail⟩
  change s.yielded ++ [_] = _
  rw [hy, List.append_assoc]
  rfl

theorem Answered.go (h : Answered refusal handled s ended) (pc : ServePc) :
    Answered refusal handled (s.go pc) ended :=
  ⟨h.response, h.owned, h.frames, h.yielded⟩

theorem serving_body (h : Serving refusal handled s) (hs : OwnedBodyStep s s') :
    Serving refusal handled s' := by
  have hend {body : Nat → PollFrame} (hb : s.body = some body) : s.isEndStream = false := by
    rw [ServerExchange.isEndStream, hb]
    rfl
  refine ⟨?_, ?_⟩
  · cases hs <;> exact h.state
  cases hs with
  | pollGone hp hb =>
    obtain ⟨ho, ha⟩ := h.at hp
    have hended : s.isEndStream = true := by
      rw [ServerExchange.isEndStream, hb]
      rfl
    have hgone : (ServePc.answered false).Keeps refusal handled (s.yield .none) := by
      refine ⟨ho, ?_⟩
      change Answered _ _ _ s.isEndStream
      rw [hended] at ha ⊢
      exact ha.gone
    exact hp ▸ hgone
  | pollCancelled hp hb hc =>
    obtain ⟨ho, ha⟩ := h.at hp
    have hlast := (ha.of_owned hb).1.last (.closed hc)
    have hgone : (ServePc.answered false).Keeps refusal handled
        (s.release.yield (.error s.state.error)) := by
      rw [h.error hc]
      exact ⟨rfl, hlast⟩
    exact hp ▸ hgone
  | poll hp hb hc =>
    obtain ⟨ho, ha⟩ := h.at hp
    rw [hb] at ho
    refine ⟨ho, ?_, (ha.of_owned hb).1.go _⟩
    rw [ServerExchange.go, hb]
    exact nofun
  | pend hp =>
    obtain ⟨ho, hb, ha⟩ := h.at hp
    obtain ⟨body, hb⟩ := Option.ne_none_iff_exists'.1 hb
    refine ⟨?_, ?_⟩
    · change s.operation = s.body.isSome
      rw [hb, ho]
      rfl
    · change Answered _ _ _ s.isEndStream
      rw [hend hb]
      exact ha.go _
  | frame hp hb hf =>
    obtain ⟨ho, _, ha⟩ := h.at hp
    refine ⟨?_, ?_⟩
    · change s.operation = s.body.isSome
      rw [hb, ho]
      rfl
    · change Answered _ _ _ s.isEndStream
      rw [hend hb]
      exact ha.frame hb hf
  | last hp hb hf =>
    obtain ⟨ho, _, ha⟩ := h.at hp
    obtain ⟨_, rfl⟩ := ha.of_owned hb
    exact ⟨rfl, (ha.last (.last hf)).go (.answered false)⟩
  | drop hp =>
    obtain ⟨ho, ha⟩ := h.at hp
    exact ⟨rfl, rfl, .inr ⟨s.isEndStream, ha.response, nofun, ha.frames, ha.yielded⟩⟩

/-- The scope and the worker leave the call alone; they close and cancel. -/
structure Apart (s s' : ServerExchange R) : Prop where
  operation : s'.operation = s.operation
  body : s'.body = s.body
  response : s'.response = s.response
  taken : s'.taken = s.taken
  yielded : s'.yielded = s.yielded
  closed : s.closed = true → s'.closed = true
  cancelled : s.state.cancelled = true → s'.state.cancelled = true

theorem Unanswered.apart (h : Unanswered s) (hs : Apart s s') : Unanswered s' :=
  ⟨hs.response.trans h.response, hs.body.trans h.owned, hs.taken.trans h.taken,
    hs.yielded.trans h.yielded⟩

theorem Answered.apart (h : Answered refusal handled s ended) (hs : Apart s s') :
    Answered refusal handled s' ended := by
  obtain ⟨tail, hy, htail⟩ := h.yielded
  refine ⟨hs.response.trans h.response, ?_, ?_, tail, ?_, ?_⟩
  · rw [hs.body]
    exact h.owned
  · rw [hs.taken]
    exact h.frames
  · rw [hs.yielded, hs.taken]
    exact hy
  · rw [hs.taken]
    exact htail.mono hs.cancelled

theorem keeps_apart (h : ServePc.Keeps refusal handled s pc) (hs : Apart s s') :
    ServePc.Keeps refusal handled s' pc := by
  have ho := hs.operation
  cases pc with
  | registering | reading | handling => exact ⟨ho.trans h.1, h.2.apart hs⟩
  | interrupted => exact ⟨ho.trans h.1, h.2.1.apart hs, hs.cancelled h.2.2⟩
  | failed error =>
    obtain ⟨h1, hu, he, hc⟩ := h
    exact ⟨ho.trans h1, hu.apart hs, he, hc.imp hs.closed hs.cancelled⟩
  | answered polled =>
    cases polled with
    | true =>
      obtain ⟨h1, hb, ha⟩ := h
      exact ⟨ho.trans h1, hs.body ▸ hb, ha.apart hs⟩
    | false =>
      obtain ⟨h1, ha⟩ := h
      refine ⟨?_, ?_⟩
      · rw [ho, hs.body]
        exact h1
      · rw [ServerExchange.isEndStream, hs.body]
        exact ha.apart hs
  | dropped =>
    obtain ⟨h1, hb, ha⟩ := h
    refine ⟨ho.trans h1, hs.body.trans hb, ?_⟩
    exact ha.imp (·.apart hs) fun ⟨ended, ha⟩ => ⟨ended, ha.apart hs⟩

theorem serving_owner (h : Serving refusal handled s) (hs : ServerOwnerStep s s') :
    Serving refusal handled s' := by
  cases hs with
  | close =>
    exact ⟨h.state, keeps_apart h.keeps ⟨rfl, rfl, rfl, rfl, rfl, fun _ => rfl, id⟩⟩
  | cancelOwner =>
    exact ⟨⟨h.state.1, rfl⟩, keeps_apart h.keeps ⟨rfl, rfl, rfl, rfl, rfl, id, fun _ => rfl⟩⟩
  | workerEnds => exact ⟨h.state, keeps_apart h.keeps ⟨rfl, rfl, rfl, rfl, rfl, id, id⟩⟩

theorem serving_step (h : Serving refusal handled s) (hs : ServerStep refusal handled s e s') :
    Serving refusal handled s' := by
  cases hs with
  | serve hs => exact serving_serve h hs
  | body hs => exact serving_body h hs
  | owner hs => exact serving_owner h hs

/-- What holds of an exchange however its steps are interleaved. -/
structure ExchangeGuarantees (refusal : R) (handled : Handled R) (s : ServerExchange R) :
    Prop where
  operation : s.operation = true ↔ s.pc.Owns s.body
  /-- Nobody but the scope cancels it. -/
  cancelled : s.state.cancelled = s.state.ownerCancelled
  refused : ∀ error, s.pc = .failed error →
    error = closedError ∧ (s.closed = true ∨ s.state.ownerCancelled = true)
  response : ∀ response, s.response = some response → response = handled.answer refusal
  unanswered : s.response = none → s.taken = 0 ∧ s.yielded = []
  answered : s.response ≠ none → Frames (handled.answer refusal).2 s.taken ∧
    ∃ ended, Yielded (handled.answer refusal).2 s ended ∧ (s.pc ≠ .dropped → ended = s.isEndStream)

theorem Serving.owns (h : Serving refusal handled s) : s.operation = true ↔ s.pc.Owns s.body := by
  have hk := h.keeps
  cases hp : s.pc with
  | registering | failed | dropped =>
    rw [hp] at hk
    exact iff_of_false (fun ho => nomatch hk.1.symm.trans ho) id
  | reading | handling | interrupted =>
    rw [hp] at hk
    exact iff_of_true hk.1 trivial
  | answered polled =>
    rw [hp] at hk
    cases polled with
    | true => exact iff_of_true hk.1 hk.2.1
    | false =>
      rw [hk.1, Option.isSome_iff_ne_none]
      rfl

/-- An exchange is unanswered or answered. -/
theorem Serving.cases (h : Serving refusal handled s) : Unanswered s ∨
    ∃ ended, Answered refusal handled s ended ∧ (s.pc ≠ .dropped → ended = s.isEndStream) := by
  have hk := h.keeps
  cases hp : s.pc with
  | registering | reading | handling =>
    rw [hp] at hk
    exact .inl hk.2
  | interrupted | failed =>
    rw [hp] at hk
    exact .inl hk.2.1
  | answered polled =>
    rw [hp] at hk
    cases polled with
    | true =>
      obtain ⟨_, hb, ha⟩ := hk
      obtain ⟨body, hb⟩ := Option.ne_none_iff_exists'.1 hb
      refine .inr ⟨false, ha, fun _ => ?_⟩
      rw [ServerExchange.isEndStream, hb]
      rfl
    | false => exact .inr ⟨s.isEndStream, hk.2, fun _ => rfl⟩
  | dropped =>
    rw [hp] at hk
    exact hk.2.2.imp_right fun ⟨ended, ha⟩ => ⟨ended, ha, fun hn => absurd rfl hn⟩

theorem Serving.guarantees (h : Serving refusal handled s) :
    ExchangeGuarantees refusal handled s := by
  constructor
  · exact h.owns
  · exact h.state.2
  · intro error hp
    obtain ⟨_, _, he, hc⟩ := h.at hp
    exact ⟨he, h.state.2 ▸ hc⟩
  · intro response hs
    obtain hu | ⟨_, ha, _⟩ := h.cases
    · exact nomatch hu.response.symm.trans hs
    · exact Option.some.inj (hs.symm.trans ha.response)
  · intro hn
    obtain hu | ⟨_, ha, _⟩ := h.cases
    · exact ⟨hu.taken, hu.yielded⟩
    · exact nomatch hn.symm.trans ha.response
  · intro hn
    obtain hu | ⟨ended, ha, hended⟩ := h.cases
    · exact absurd hu.response hn
    · exact ⟨ha.frames, ended, ha.yielded, hended⟩

/-- A cancelled exchange between two polls: its handler and its body are not polled any more, and
all that is yet yielded is the error of the closed handle and the end. -/
structure QuietExchange (s t : ServerExchange R) : Prop where
  cancelled : t.state.cancelled = true
  idle : ¬ t.pc.Polls
  response : t.response = s.response
  taken : t.taken = s.taken
  yielded : ∃ tail, t.yielded = s.yielded ++ tail ∧
    ∀ frame ∈ tail, frame = .error closedError ∨ frame = .none

theorem quietExchange_refl (hc : s.state.cancelled = true) (hp : ¬ s.pc.Polls) :
    QuietExchange s s :=
  ⟨hc, hp, rfl, rfl, [], (List.append_nil _).symm, nofun⟩

theorem QuietExchange.same (h : QuietExchange s t)
    (hs : s'.response = t.response ∧ s'.taken = t.taken ∧ s'.yielded = t.yielded)
    (hc : s'.state.cancelled = true) (hp : ¬ s'.pc.Polls) : QuietExchange s s' := by
  obtain ⟨tail, hy, htail⟩ := h.yielded
  exact ⟨hc, hp, hs.1.trans h.response, hs.2.1.trans h.taken, tail, hs.2.2.trans hy, htail⟩

theorem QuietExchange.yield (h : QuietExchange s t)
    (hs : s'.response = t.response ∧ s'.taken = t.taken ∧ s'.yielded = t.yielded ++ [frame])
    (hc : s'.state.cancelled = true) (hp : ¬ s'.pc.Polls)
    (hf : frame = .error closedError ∨ frame = .none) : QuietExchange s s' := by
  obtain ⟨tail, hy, htail⟩ := h.yielded
  refine ⟨hc, hp, hs.1.trans h.response, hs.2.1.trans h.taken, tail ++ [frame], ?_, ?_⟩
  · rw [hs.2.2, hy, List.append_assoc]
  · intro f hmem
    obtain hmem | hmem := List.mem_append.1 hmem
    · exact htail f hmem
    · rw [List.mem_singleton.1 hmem]
      exact hf

theorem quietExchange_step (h : QuietExchange s t) (hinv : Serving refusal handled t)
    (hs : ServerStep refusal handled t e s') : QuietExchange s s' := by
  have hc := h.cancelled
  have hpolls {pc : ServePc} (hp : t.pc = pc) : ¬ pc.Polls := hp ▸ h.idle
  cases hs with
  | serve hs =>
    cases hs with
    | poll _ hn => exact nomatch hc.symm.trans hn
    | pend hp | answer hp => exact absurd rfl (hpolls hp)
    | read => exact h.same ⟨rfl, rfl, rfl⟩ hc nofun
    | register | refuse | refuseReading | interrupt | readError | drop =>
      exact h.same ⟨rfl, rfl, rfl⟩ hc id
  | body hs =>
    cases hs with
    | poll _ _ hn => exact nomatch hc.symm.trans hn
    | pend hp | frame hp | last hp => exact absurd rfl (hpolls hp)
    | pollGone => exact h.yield ⟨rfl, rfl, rfl⟩ hc h.idle (.inr rfl)
    | pollCancelled =>
      rw [hinv.error hc]
      exact h.yield ⟨rfl, rfl, rfl⟩ hc h.idle (.inl rfl)
    | drop => exact h.same ⟨rfl, rfl, rfl⟩ hc id
  | owner hs =>
    cases hs with
    | close | workerEnds => exact h.same ⟨rfl, rfl, rfl⟩ hc h.idle
    | cancelOwner => exact h.same ⟨rfl, rfl, rfl⟩ rfl h.idle

/-- The step from one place to another is the last of a poll. A call goes on from `reading` to its
handler in the same poll. -/
def ServePc.returns : ServePc → ServePc → Bool
  | reading, handling _ => false
  | _, handling polled => !polled
  | _, answered polled => !polled
  | _, failed _ => true
  | _, _ => false

/-- A step while a call or the body of its response is polled; the flag says that the poll has
returned. The scope and the worker go on. -/
inductive PollStep (refusal : R) (handled : Handled R) :
    ServerExchange R × Bool → Unit → ServerExchange R × Bool → Prop
  | call {s s' : ServerExchange R} (h : ServeStep refusal handled s s') (hd : s'.pc ≠ .dropped) :
    PollStep refusal handled (s, false) e (s', s.pc.returns s'.pc)
  | body {s s' : ServerExchange R} (h : OwnedBodyStep s s') (hd : s'.pc ≠ .dropped) :
    PollStep refusal handled (s, false) e (s', s.pc.returns s'.pc)
  | owner {s s' : ServerExchange R} (h : ServerOwnerStep s s') :
    PollStep refusal handled (s, returned) e (s', returned)

/-- A poll from `s` has come to `t`. -/
abbrev ExchangePoll (refusal : R) (handled : Handled R) (s : ServerExchange R) (returned : Bool)
    (t : ServerExchange R) : Prop :=
  Reaches (PollStep refusal handled) (fun _ _ => True) (s, false) (t, returned)

/-- The step that ends a poll of a call whose handler is not being polled releases the operation. -/
theorem call_released (h : Serving refusal handled s) (hi : ¬ s.pc.Polls)
    (hs : ServeStep refusal handled s s') (hr : s.pc.returns s'.pc = true) :
    s'.operation = false := by
  have hpolls {pc : ServePc} (hp : s.pc = pc) : ¬ pc.Polls := hp ▸ hi
  cases hs with
  | pend hp | answer hp => exact absurd rfl (hpolls hp)
  | register hp | read hp | poll hp | interrupt hp =>
    rw [hp] at hr
    exact nomatch hr
  | refuse hp => exact (h.at hp).1
  | refuseReading | readError | drop => rfl

theorem body_released (h : Serving refusal handled s) (hi : ¬ s.pc.Polls)
    (hs : OwnedBodyStep s s') (hr : s.pc.returns s'.pc = true) : s'.operation = false := by
  have hpolls {pc : ServePc} (hp : s.pc = pc) : ¬ pc.Polls := hp ▸ hi
  cases hs with
  | pend hp | frame hp | last hp => exact absurd rfl (hpolls hp)
  | poll hp =>
    rw [hp] at hr
    exact nomatch hr
  | pollGone hp hb =>
    have ho := (h.at hp).1
    rw [hb] at ho
    exact ho
  | pollCancelled | drop => rfl

/-- A poll from `s`, which is cancelled: it stays quiet, and when it has returned the operation is
gone. -/
structure Releasing (refusal : R) (handled : Handled R) (s : ServerExchange R)
    (t : ServerExchange R × Bool) : Prop where
  serving : Serving refusal handled t.1
  quiet : QuietExchange s t.1
  released : t.2 = true → t.1.operation = false

theorem releasing_step {u u' : ServerExchange R × Bool} (h : Releasing refusal handled s u)
    (hs : PollStep refusal handled u e u') : Releasing refusal handled s u' := by
  obtain ⟨hserving, hquiet, hreleased⟩ := h
  cases hs with
  | call hs =>
    exact ⟨serving_serve hserving hs, quietExchange_step (e := ()) hquiet hserving (.serve hs),
      call_released hserving hquiet.idle hs⟩
  | body hs =>
    exact ⟨serving_body hserving hs, quietExchange_step (e := ()) hquiet hserving (.body hs),
      body_released hserving hquiet.idle hs⟩
  | owner hs =>
    refine ⟨serving_owner hserving hs, quietExchange_step (e := ()) hquiet hserving (.owner hs), ?_⟩
    cases hs <;> exact hreleased

theorem ExchangePoll.call (h : ExchangePoll refusal handled s false t)
    (hs : ServeStep refusal handled t s') (hd : s'.pc ≠ .dropped) :
    ExchangePoll refusal handled s (t.pc.returns s'.pc) s' :=
  h.tail (e := ()) trivial (.call hs hd)

theorem interrupted_returns (h : ExchangePoll refusal handled s false t)
    (hp : t.pc = .interrupted) : ∃ s', ExchangePoll refusal handled s true s' := by
  have hlast := h.call (.readError hp) nofun
  rw [hp] at hlast
  exact ⟨_, hlast⟩

theorem handling_returns (h : ExchangePoll refusal handled s false t)
    (hp : t.pc = .handling false) (hc : t.state.cancelled = true) :
    ∃ s', ExchangePoll refusal handled s true s' := by
  have hnext := h.call (.interrupt hp hc) nofun
  rw [hp] at hnext
  exact interrupted_returns hnext rfl

/-- A cancelled exchange that still has its operation can be polled to the end. -/
theorem cancelled_returns (h : Serving refusal handled s) (hc : s.state.cancelled = true)
    (hi : ¬ s.pc.Polls) (ho : s.operation = true) :
    ∃ s', ExchangePoll refusal handled s true s' := by
  have hstart : ExchangePoll refusal handled s false s := Reaches.refl
  have hgone {P : Prop} (hn : s.operation = false) : P := nomatch ho.symm.trans hn
  cases hp : s.pc with
  | registering | failed | dropped => exact hgone (h.at hp).1
  | reading =>
    cases hclosed : s.closed with
    | true =>
      have hlast := hstart.call (.refuseReading hp hclosed) nofun
      rw [hp] at hlast
      exact ⟨_, hlast⟩
    | false =>
      have hnext := hstart.call (.read hp hclosed) nofun
      rw [hp] at hnext
      exact handling_returns hnext rfl hc
  | handling polled =>
    cases polled with
    | false => exact handling_returns hstart hp hc
    | true =>
      rw [hp] at hi
      exact absurd rfl hi
  | interrupted => exact interrupted_returns hstart hp
  | answered polled =>
    cases polled with
    | true =>
      rw [hp] at hi
      exact absurd rfl hi
    | false =>
      obtain ⟨body, hb⟩ : ∃ body, s.body = some body := by
        have hown := h.owns.1 ho
        rw [hp] at hown
        exact Option.ne_none_iff_exists'.1 hown
      have hreturns : s.pc.returns s.pc = true := by
        rw [hp]
        rfl
      have hlast := hstart.tail (e := ()) trivial
        (.body (.pollCancelled hp hb hc) fun hd => nomatch hp.symm.trans hd)
      exact ⟨_, hreturns ▸ hlast⟩

/-- An exchange has its operation as long as its call or the body of its response is there; the
body is the handler's, given in order and ended once; and a cancelled exchange polls the handler
and the body no more, and every poll of it that returns has given its operation back. -/
theorem server_exchange_guarantees (h : Reaches (ServerStep refusal handled) (fun _ _ => True)
    (serverExchange R) s) : ExchangeGuarantees refusal handled s ∧
      (s.state.cancelled = true → ¬ s.pc.Polls →
        (∀ s', Reaches (ServerStep refusal handled) (fun _ _ => True) s s' → QuietExchange s s') ∧
        (∀ s', ExchangePoll refusal handled s true s' → s'.operation = false) ∧
        (s.operation = true → ∃ s', ExchangePoll refusal handled s true s')) := by
  have hinv := h.invariant serving_start fun _ _ _ hi _ hs => serving_step hi hs
  refine ⟨hinv.guarantees, fun hc hp => ⟨fun s' hs' => ?_, fun s' hs' => ?_,
    cancelled_returns hinv hc hp⟩⟩
  · have hend := @Reaches.invariant _ _ _ _ _ _
      (fun t => QuietExchange s t ∧ Serving refusal handled t) hs' ⟨quietExchange_refl hc hp, hinv⟩
      fun _ _ _ hi _ hs => ⟨quietExchange_step hi.1 hi.2 hs, serving_step hi.2 hs⟩
    exact hend.1
  · have hstart : Releasing refusal handled s (s, false) :=
      ⟨hinv, quietExchange_refl hc hp, nofun⟩
    have hend := hs'.invariant hstart fun _ _ _ hi _ hs => releasing_step hi hs
    exact hend.released rfl

/-- A body of one frame. -/
def greetingBody : Nat → PollFrame
  | 0 => .data [1]
  | _ => .none

/-- The scope is closed behind the first frame. -/
theorem server_exchange_guarantees_closed : ∃ s : ServerExchange Nat,
    s.yielded = [.data [1]] ∧ s.operation = true ∧
      ExchangeGuarantees 500 (.response 200 greetingBody) s ∧
      (∀ s', Reaches (ServerStep 500 (.response 200 greetingBody)) (fun _ _ => True) s s' →
        QuietExchange s s') ∧
      (∃ s', ExchangePoll 500 (.response 200 greetingBody) s true s') ∧
      ∀ s', ExchangePoll 500 (.response 200 greetingBody) s true s' → s'.operation = false := by
  have h := @Reaches.refl _ Unit (ServerStep 500 (.response 200 greetingBody)) (fun _ _ => True)
    (serverExchange Nat)
  have h := h.tail (e := ()) trivial (.serve (.register rfl rfl))
  have h := h.tail (e := ()) trivial (.serve (.read rfl rfl))
  have h := h.tail (e := ()) trivial (.serve (.poll rfl rfl))
  have h := h.tail (e := ()) trivial (.serve (.answer rfl))
  have h := h.tail (e := ()) trivial (.body (.poll rfl rfl rfl))
  have h := h.tail (e := ()) trivial (.body (.frame rfl rfl trivial))
  have h := h.tail (e := ()) trivial (.owner .close)
  have h := h.tail (e := ()) trivial (.owner .cancelOwner)
  obtain ⟨hg, hcancelled⟩ := server_exchange_guarantees h
  obtain ⟨hquiet, hreleased, hreturns⟩ := hcancelled rfl nofun
  exact ⟨_, rfl, rfl, hg, hquiet, hreturns rfl, hreleased⟩

end Runs

end Dhttp.Api
