import Mathlib
import Dhttp.Api.UploadRuns
import Mathlib.Data.List.Nodup

namespace Dhttp.Api
open Dhttp.Lib
set_option autoImplicit true

section Recording
variable {I : Type} {call : I → UploadCall} {s s' : Upload I}

/-- The call has not come to the lock. -/
def UploadPc.Before : UploadPc → Prop
  | .idle | .running .waiting _ => True
  | _ => False

/-- The calls do what they are made for, and the record of the sends is right. -/
structure Recorded (call : I → UploadCall) (s : Upload I) : Prop where
  sends : ∀ i rest polled, s.pc i = .running (.sending rest) polled → ∃ bytes, call i = .send bytes
  finishes : ∀ i polled, s.pc i = .running .finishing polled → ∃ trailers, call i = .finish trailers
  acquired : s.acquired.Nodup
  passed : ∀ i ∈ s.acquired, ¬ (s.pc i).Before
  nodup : s.completed.Nodup
  completed : ∀ i, i ∈ s.completed ↔ s.pc i = .returned (.ok ()) ∧ ∃ bytes, call i = .send bytes

theorem recorded_same (h : Recorded call s) (hpc : s'.pc = s.pc)
    (ha : s'.acquired = s.acquired) (hc : s'.completed = s.completed) : Recorded call s' :=
  ⟨fun i rest polled hp => h.sends i rest polled (hpc ▸ hp),
    fun i polled hp => h.finishes i polled (hpc ▸ hp), ha ▸ h.acquired,
    fun i hi => hpc ▸ h.passed i (ha ▸ hi), hc ▸ h.nodup,
    fun i => by rw [hc, hpc]; exact h.completed i⟩

variable [DecidableEq I]

theorem passed_update (h : ∀ i ∈ s.acquired, ¬ (s.pc i).Before)
    (hb : p.Before → (s.pc i).Before) :
    ∀ j ∈ s.acquired, ¬ (Function.update s.pc i p j).Before := by
  intro j hj
  by_cases he : j = i
  · rw [he, Function.update_self]
    exact fun hp => h i (he ▸ hj) (hb hp)
  · rw [Function.update_of_ne he]
    exact h j hj

theorem recorded_update (h : Recorded call s) (hn : s.pc i ≠ .returned (.ok ()))
    (hpc : s'.pc = Function.update s.pc i p) (ha : s'.acquired = s.acquired)
    (hc : s'.completed = s.completed) (hb : p.Before → (s.pc i).Before)
    (hs : ∀ rest polled, p = .running (.sending rest) polled → ∃ bytes, call i = .send bytes)
    (hf : ∀ polled, p = .running .finishing polled → ∃ trailers, call i = .finish trailers)
    (hr : p = .returned (.ok ()) → ∃ trailers, call i = .finish trailers) :
    Recorded call s' := by
  refine ⟨fun j rest polled hj => ?_, fun j polled hj => ?_, ha ▸ h.acquired, ?_, hc ▸ h.nodup,
    fun j => ?_⟩
  · rw [hpc] at hj
    by_cases he : j = i
    · rw [he, Function.update_self] at hj
      exact he ▸ hs rest polled hj
    · rw [Function.update_of_ne he] at hj
      exact h.sends j rest polled hj
  · rw [hpc] at hj
    by_cases he : j = i
    · rw [he, Function.update_self] at hj
      exact he ▸ hf polled hj
    · rw [Function.update_of_ne he] at hj
      exact h.finishes j polled hj
  · rw [ha, hpc]
    exact passed_update h.passed hb
  · rw [hc, hpc, h.completed]
    by_cases he : j = i
    · rw [he, Function.update_self]
      refine iff_of_false (fun hj => hn hj.1) fun ⟨hp, bytes, hb⟩ => ?_
      obtain ⟨trailers, ht⟩ := hr hp
      exact absurd (hb.symm.trans ht) nofun
    · rw [Function.update_of_ne he]

theorem recorded_stage (h : Recorded call s) (hp : s.pc i = .running stage polled)
    (hpc : s'.pc = Function.update s.pc i (.running stage polled'))
    (ha : s'.acquired = s.acquired) (hc : s'.completed = s.completed) : Recorded call s' := by
  refine recorded_update h (by rw [hp]; nofun) hpc ha hc (fun hb => ?_) ?_ ?_ nofun
  · rw [hp]
    cases stage with
    | waiting => trivial
    | sending | finishing => exact hb
  · rintro rest _ ⟨⟩
    exact h.sends i rest polled hp
  · rintro _ ⟨⟩
    exact h.finishes i polled hp

theorem recorded_step (h : Recorded call s) (hs : UploadStep call s e s') : Recorded call s' := by
  cases hs with
  | start hp hw =>
    exact recorded_update h (by rw [hp]; nofun) rfl rfl rfl (fun _ => by rw [hp]; trivial)
      nofun nofun nofun
  | poll hp hc => exact recorded_stage h hp rfl rfl rfl
  | giveUp hp hc => exact recorded_update h (by rw [hp]; nofun) rfl rfl rfl nofun nofun nofun nofun
  | pend hp ha => exact recorded_stage h hp rfl rfl rfl
  | lockFinished hp hl hs =>
    exact recorded_update h (by rw [hp]; nofun) rfl rfl rfl nofun nofun nofun nofun
  | @lockSend i bytes hp hl hs hi =>
    have hgo : Recorded call (s.go i (.running (.sending (chunks chunkBytes bytes)) true)) :=
      recorded_update h (by rw [hp]; nofun) rfl rfl rfl nofun (fun _ _ _ => ⟨_, hi⟩) nofun nofun
    have hnew : i ∉ s.acquired := fun hm => by
      have hpassed := h.passed i hm
      rw [hp] at hpassed
      exact hpassed trivial
    refine ⟨hgo.sends, hgo.finishes, ?_, fun j hj => ?_, hgo.nodup, hgo.completed⟩
    · change (s.acquired ++ [i]).Nodup
      rw [← List.concat_eq_append]
      exact List.Nodup.concat hnew h.acquired
    · obtain hj | hj := List.mem_append.1 hj
      · exact hgo.passed j hj
      · rw [List.mem_singleton.1 hj]
        change ¬ (Function.update s.pc i _ i).Before
        rw [Function.update_self]
        exact id
  | lockFinish hp hl hs hi =>
    exact recorded_update h (by rw [hp]; nofun) rfl rfl rfl nofun nofun (fun _ _ => ⟨_, hi⟩) nofun
  | enqueue hp ho hq =>
    exact recorded_update h (by rw [hp]; nofun) rfl rfl rfl nofun (fun _ _ _ => h.sends _ _ _ hp)
      nofun nofun
  | @complete i hp =>
    obtain ⟨bytes, hi⟩ := h.sends _ _ _ hp
    have hnew : i ∉ s.completed := fun hm => by
      rw [h.completed, hp] at hm
      exact nomatch hm.1
    refine ⟨fun j rest polled hj => ?_, fun j polled hj => ?_, h.acquired,
      passed_update h.passed nofun, ?_, fun j => ?_⟩
    · by_cases he : j = i
      · rw [he] at hj
        exact absurd (hj.symm.trans (Function.update_self ..)) nofun
      · exact h.sends j rest polled ((Function.update_of_ne he ..).symm.trans hj)
    · by_cases he : j = i
      · rw [he] at hj
        exact absurd (hj.symm.trans (Function.update_self ..)) nofun
      · exact h.finishes j polled ((Function.update_of_ne he ..).symm.trans hj)
    · rw [← List.concat_eq_append]
      exact List.Nodup.concat hnew h.nodup
    · rw [List.mem_append, List.mem_singleton, h.completed]
      change _ ↔ Function.update s.pc i (.returned (.ok ())) j = .returned (.ok ()) ∧ _
      by_cases he : j = i
      · rw [he, Function.update_self]
        exact iff_of_true (.inr rfl) ⟨rfl, bytes, hi⟩
      · rw [Function.update_of_ne he, or_iff_left he]
  | mark hp hi ho hq =>
    exact recorded_update h (by rw [hp]; nofun) rfl rfl rfl nofun nofun nofun fun _ => ⟨_, hi⟩
  | hangUp hp hs ha ho =>
    exact recorded_update h (by rw [hp]; nofun) rfl rfl rfl nofun nofun nofun nofun
  | drop hp => exact recorded_update h (by rw [hp]; nofun) rfl rfl rfl nofun nofun nofun nofun
  | unwind hp => exact recorded_update h (by rw [hp]; nofun) rfl rfl rfl nofun nofun nofun nofun
  | fail | dropWriter | pollEnded | pollCancelled | pollFrame | receiveData | receiveFinish
    | receiveDropped | pendFrame => exact recorded_same h rfl rfl rfl

end Recording

section Ending
variable {I : Type} {call : I → UploadCall} {s s' : Upload I}

/-- The marker is the last frame in the channel, and the body ends with it or with an error. -/
structure Ending (call : I → UploadCall) (s : Upload I) : Prop where
  bounded : s.queue.length ≤ queuedChunks
  polled : s.polled = true → s.ended = false
  unmarked : s.marker = none → ∃ queue : List Bytes, s.queue = queue.map .data
  marked : ∀ f oks, s.marker = some (f, oks) → ∃ trailers, call f = .finish trailers ∧
    s.sender = false ∧ s.completed = oks ∧ s.passed = oks.flatMap (sentChunks call) ∧
      ((∃ queue : List Bytes, s.queue = queue.map .data ++ [.finish trailers]) ∨
        s.queue = [] ∧ s.ended = true)
  live : s.ended = false → s.yielded = (dataOf s.yielded).map .data
  ended : s.ended = true → ∃ last n,
    s.yielded = (dataOf s.yielded).map .data ++ last :: List.replicate n .none ∧
      ((∃ error, last = .error error) ∨ ∃ f oks trailers, s.marker = some (f, oks) ∧
        call f = .finish trailers ∧ last = endFrame trailers ∧ s.queue = [])

/-- Steps of calls leave the body as it is. -/
theorem ending_same (h : Ending call s) (hs : s' = { s with
      pc := s'.pc, lock := s'.lock, writer := s'.writer, state := s'.state
      acquired := s'.acquired, abandoned := s'.abandoned }) :
    Ending call s' := by
  rw [hs]
  exact ⟨h.bounded, h.polled, h.unmarked, h.marked, h.live, h.ended⟩

/-- Who is inside has not seen a marker. -/
theorem unmarked_of_lock (hl : Locked s) (h : Ending call s) (hlock : s.lock = some i) :
    s.marker = none := by
  cases hm : s.marker with
  | none => rfl
  | some marker =>
    obtain ⟨_, _, hsender, _⟩ := h.marked marker.1 marker.2 hm
    exact absurd (hlock.symm.trans (hl.unlocked hsender)) nofun

/-- A queue that starts with a chunk keeps its form without it. -/
theorem tail_of_data {chunk : Bytes} {queue last : List UploadFrame} {chunks : List Bytes}
    (hlast : ∀ rest, last ≠ .data chunk :: rest)
    (h : .data chunk :: queue = chunks.map .data ++ last) :
    ∃ chunks' : List Bytes, queue = chunks'.map .data ++ last := by
  cases chunks with
  | nil => exact absurd h.symm (hlast queue)
  | cons _ chunks => exact ⟨chunks, (List.cons.inj h).2⟩

theorem live_end (h : s.yielded = (dataOf s.yielded).map .data) (hl : dataOf [last] = []) :
    s.yielded ++ [last] = (dataOf (s.yielded ++ [last])).map .data ++
      last :: List.replicate 0 .none := by
  rw [dataOf_append, hl, List.append_nil, ← h]
  rfl

/-- The body ends with an error. -/
theorem ending_error (h : Ending call s) (he : s.ended = false) (hp : s'.polled = false)
    (hs : s' = { s with
      polled := s'.polled, ended := true, closed := s'.closed
      yielded := s.yielded ++ [.error error] }) : Ending call s' := by
  have hyielded : s'.yielded = s.yielded ++ [.error error] := by rw [hs]
  have hended : s'.ended = true := by rw [hs]
  have hmarker : s'.marker = s.marker := by rw [hs]
  have hqueue : s'.queue = s.queue := by rw [hs]
  have hpassed : s'.passed = s.passed := passed_of_yield hyielded hqueue rfl
  refine ⟨hqueue ▸ h.bounded, fun hn => absurd (hp.symm.trans hn) Bool.false_ne_true,
    fun hm => hqueue ▸ h.unmarked (hmarker ▸ hm), fun f oks hm => ?_,
    fun hn => absurd (hn.symm.trans hended) Bool.false_ne_true,
    fun _ => ⟨.error error, 0, ?_, .inl ⟨_, rfl⟩⟩⟩
  · obtain ⟨trailers, hf, hsender, hcompleted, hoks, hlast⟩ := h.marked f oks (hmarker ▸ hm)
    refine ⟨trailers, hf, ?_, ?_, hpassed.trans hoks, ?_⟩
    · rw [hs]
      exact hsender
    · rw [hs]
      exact hcompleted
    · rw [hqueue, hended]
      exact hlast.imp_right fun hq => ⟨hq.1, rfl⟩
  · rw [hs]
    exact live_end (h.live he) rfl

variable [DecidableEq I]

theorem ending_step (hl : Locked s) (ha : Accounted call s) (h : Ending call s)
    (hs : UploadStep call s e s') (hab : e = .enqueue → s.abandoned = false) :
    Ending call s' := by
  cases hs with
  | start | poll | giveUp | pend | lockFinished | lockSend | lockFinish | hangUp | drop | unwind
    | fail => exact ending_same h rfl
  | @enqueue i chunk rest hp ho hq =>
    have hnone := unmarked_of_lock hl h (hl.lock_eq hp trivial)
    obtain ⟨queue, hqueue⟩ := h.unmarked hnone
    refine ⟨?_, h.polled, fun _ => ⟨queue ++ [chunk], ?_⟩,
      fun f oks hm => absurd (hm.symm.trans hnone) (Option.some_ne_none _), h.live, fun he => ?_⟩
    · change (s.queue ++ [UploadFrame.data chunk]).length ≤ queuedChunks
      rw [List.length_append, List.length_singleton]
      exact hq
    · change s.queue ++ [UploadFrame.data chunk] = _
      rw [hqueue, List.map_append, List.map_singleton]
    · obtain ⟨last, n, hy, hlast⟩ := h.ended he
      refine ⟨last, n, hy, hlast.imp_right fun ⟨f, oks, trailers, hm, _⟩ => ?_⟩
      exact absurd (hm.symm.trans hnone) (Option.some_ne_none _)
  | @complete i hp =>
    have hnone := unmarked_of_lock hl h (hl.lock_eq hp trivial)
    exact ⟨h.bounded, h.polled, h.unmarked,
      fun f oks hm => absurd (hm.symm.trans hnone) (Option.some_ne_none _), h.live, h.ended⟩
  | @mark i trailers hp hi ho hq =>
    have hlock := hl.lock_eq hp trivial
    have hnone := unmarked_of_lock hl h hlock
    obtain ⟨queue, hqueue⟩ := h.unmarked hnone
    obtain ⟨hpassed, hacquired⟩ := ha.whole (hab rfl)
    rw [Upload.rest_of_lock hlock hp] at hpassed
    rw [Upload.current_of_lock hlock hp] at hacquired
    refine ⟨?_, h.polled, fun hm => absurd hm (Option.some_ne_none _), ?_, h.live, fun he => ?_⟩
    · change (s.queue ++ [UploadFrame.finish trailers]).length ≤ queuedChunks
      rw [List.length_append, List.length_singleton]
      exact hq
    · rintro _ _ ⟨⟩
      refine ⟨trailers, hi, rfl, rfl, ?_, .inl ⟨queue, ?_⟩⟩
      · change dataOf s.yielded ++ queuedData (s.queue ++ [.finish trailers]) = _
        rw [queuedData_append, ← List.append_assoc]
        refine hpassed.trans ?_
        rw [hacquired]
        exact congrArg _ (List.append_nil _)
      · change s.queue ++ [UploadFrame.finish trailers] = _
        rw [hqueue]
    · obtain ⟨last, n, hy, hlast⟩ := h.ended he
      refine ⟨last, n, hy, .inl (hlast.resolve_right fun ⟨f, oks, trailers, hm, _⟩ => ?_)⟩
      exact absurd (hm.symm.trans hnone) (Option.some_ne_none _)
  | dropWriter hw hp =>
    refine ⟨h.bounded, h.polled, h.unmarked, fun f oks hm => ?_, h.live, h.ended⟩
    obtain ⟨trailers, hf, -, hrest⟩ := h.marked f oks hm
    exact ⟨trailers, hf, rfl, hrest⟩
  | pollEnded hp he =>
    have hpassed : Upload.passed { s with yielded := s.yielded ++ [.none] } = s.passed :=
      passed_of_yield rfl rfl rfl
    refine ⟨h.bounded, h.polled, h.unmarked, fun f oks hm => ?_, fun hn => ?_, fun _ => ?_⟩
    · rw [hpassed]
      exact h.marked f oks hm
    · exact absurd (hn.symm.trans he) Bool.false_ne_true
    · obtain ⟨last, n, hy, hlast⟩ := h.ended he
      refine ⟨last, n + 1, ?_, hlast⟩
      change s.yielded ++ [PollFrame.none] =
        (dataOf (s.yielded ++ [PollFrame.none])).map PollFrame.data ++ _
      rw [dataOf_append, List.replicate_succ', ← List.cons_append, ← List.append_assoc]
      change _ = (dataOf s.yielded ++ []).map PollFrame.data ++ _ ++ _
      rw [List.append_nil, ← hy]
  | pollCancelled hp he hc => exact ending_error h he hp rfl
  | pollFrame hp he hc => exact ⟨h.bounded, fun _ => he, h.unmarked, h.marked, h.live, h.ended⟩
  | @receiveData chunk queue hp hq =>
    have he := h.polled hp
    have hpassed : dataOf (s.yielded ++ [.data chunk]) ++ queuedData queue = s.passed := by
      rw [Upload.passed, dataOf_append, hq, List.append_assoc]
      rfl
    refine ⟨?_, fun hn => absurd hn Bool.false_ne_true, fun hm => ?_, fun f oks hm => ?_,
      fun _ => ?_, fun hn => ?_⟩
    · have hbounded := h.bounded
      rw [hq, List.length_cons] at hbounded
      exact Nat.le_of_succ_le hbounded
    · obtain ⟨chunks, hchunks⟩ := h.unmarked hm
      rw [hq, ← List.append_nil (chunks.map _)] at hchunks
      obtain ⟨chunks, hchunks⟩ := tail_of_data (fun _ h => by cases h) hchunks
      exact ⟨chunks, hchunks.trans (List.append_nil _)⟩
    · obtain ⟨trailers, hf, hsender, hcompleted, hoks, hlast⟩ := h.marked f oks hm
      refine ⟨trailers, hf, hsender, hcompleted, hpassed.trans hoks, .inl ?_⟩
      obtain ⟨chunks, hchunks⟩ | ⟨hnil, -⟩ := hlast
      · rw [hq] at hchunks
        exact tail_of_data (fun _ h => by cases h) hchunks
      · rw [hq] at hnil
        cases hnil
    · change s.yielded ++ [.data chunk] = (dataOf (s.yielded ++ [.data chunk])).map .data
      rw [dataOf_append, List.map_append, ← h.live he]
      rfl
    · exact absurd (he.symm.trans hn) Bool.false_ne_true
  | @receiveFinish trailers queue hp hq =>
    have he := h.polled hp
    have hpassed : dataOf (s.yielded ++ [endFrame trailers]) ++ queuedData queue = s.passed := by
      rw [Upload.passed, dataOf_append, dataOf_endFrame, hq, List.append_nil]
      rfl
    obtain ⟨⟨f, oks⟩, hmarker⟩ : ∃ marker, s.marker = some marker := by
      refine Option.ne_none_iff_exists'.1 fun hmarker => ?_
      obtain ⟨chunks, hchunks⟩ := h.unmarked hmarker
      rw [hq] at hchunks
      cases chunks with
      | nil => cases hchunks
      | cons _ chunks => cases (List.cons.inj hchunks).1
    obtain ⟨trailers', hf, hsender, hcompleted, hoks, hlast⟩ := h.marked f oks hmarker
    have hlast' : trailers = trailers' ∧ queue = [] := by
      obtain ⟨chunks, hchunks⟩ | ⟨hnil, -⟩ := hlast
      · rw [hq] at hchunks
        cases chunks with
        | nil =>
          obtain ⟨hfinish, hqueue⟩ := List.cons.inj hchunks
          exact ⟨UploadFrame.finish.inj hfinish, hqueue⟩
        | cons _ chunks => cases (List.cons.inj hchunks).1
      · rw [hq] at hnil
        cases hnil
    obtain ⟨rfl, rfl⟩ := hlast'
    refine ⟨Nat.zero_le _, fun hn => absurd hn Bool.false_ne_true,
      fun hm => absurd (hm.symm.trans hmarker) (Option.some_ne_none _).symm, fun f' oks' hm => ?_,
      fun hn => absurd hn.symm Bool.false_ne_true, fun _ => ⟨endFrame trailers, 0, ?_, .inr ?_⟩⟩
    · obtain ⟨rfl, rfl⟩ : f = f' ∧ oks = oks' :=
        Prod.mk.inj (Option.some.inj (hmarker.symm.trans hm))
      exact ⟨trailers, hf, hsender, hcompleted, hpassed.trans hoks, .inr ⟨rfl, rfl⟩⟩
    · exact live_end (h.live he) (dataOf_endFrame trailers)
    · exact ⟨f, oks, trailers, hmarker, hf, rfl, rfl⟩
  | receiveDropped hp hq hs => exact ending_error h (h.polled hp) rfl rfl
  | pendFrame hp =>
    exact ⟨h.bounded, fun hn => absurd hn Bool.false_ne_true, h.unmarked, h.marked, h.live, h.ended⟩

end Ending

section Delivery
variable {I : Type} {call : I → UploadCall} {s s' : Upload I}

def sentBytes (call : I → UploadCall) (i : I) : Bytes :=
  match call i with
  | .send bytes => bytes
  | .finish _ => []

theorem sentChunks_flatten (call : I → UploadCall) (i : I) :
    (sentChunks call i).flatten = sentBytes call i := by
  rw [sentChunks, sentBytes]
  cases call i with
  | send bytes => exact chunks_flatten (by decide) bytes
  | finish trailers => rfl

theorem sentChunks_length_le (h : chunk ∈ sentChunks call i) : chunk.length ≤ chunkBytes := by
  rw [sentChunks] at h
  split at h
  · exact chunks_length_le h
  · cases h

/-- The body yields what was sent. -/
structure Delivered (call : I → UploadCall) (s : Upload I) : Prop where
  inOrder : dataOf s.yielded <+: s.acquired.flatMap (sentChunks call)
  acquired : s.acquired.Nodup
  chunked : ∀ chunk ∈ dataOf s.yielded, chunk.length ≤ chunkBytes
  bounded : s.queue.length ≤ queuedChunks
  nodup : s.completed.Nodup
  completed : ∀ i, i ∈ s.completed ↔ s.pc i = .returned (.ok ()) ∧ ∃ bytes, call i = .send bytes
  live : s.ended = false → s.yielded = (dataOf s.yielded).map .data
  ended : s.ended = true → ∃ last n,
    s.yielded = (dataOf s.yielded).map .data ++ last :: List.replicate n .none ∧
      ((∃ error, last = .error error) ∨ ∃ f trailers, s.marker = some (f, s.completed) ∧
        call f = .finish trailers ∧ last = endFrame trailers ∧
        (dataOf s.yielded).flatten = s.completed.flatMap (sentBytes call))

structure Consistent (call : I → UploadCall) (s : Upload I) : Prop where
  locked : Locked s
  accounted : Accounted call s
  recorded : Recorded call s
  ending : Ending call s

theorem uploadChannel_consistent : Consistent call (uploadChannel I) where
  locked := ⟨fun _ => iff_of_false id nofun, nofun, fun _ => rfl⟩
  accounted := ⟨List.nil_prefix, fun _ => ⟨rfl, rfl⟩⟩
  recorded := ⟨nofun, nofun, List.nodup_nil, nofun, List.nodup_nil,
    fun _ => iff_of_false nofun nofun⟩
  ending := ⟨Nat.zero_le _, nofun, fun _ => ⟨[], rfl⟩, nofun, fun _ => rfl, nofun⟩

theorem Consistent.delivered (h : Consistent call s) : Delivered call s where
  inOrder := (List.prefix_append ..).trans h.accounted.inOrder
  acquired := h.recorded.acquired
  chunked chunk hm := by
    have hmem := ((List.prefix_append ..).trans h.accounted.inOrder).mem hm
    obtain ⟨i, -, hi⟩ := List.mem_flatMap.1 hmem
    exact sentChunks_length_le hi
  bounded := h.ending.bounded
  nodup := h.recorded.nodup
  completed := h.recorded.completed
  live := h.ending.live
  ended he := by
    obtain ⟨last, n, hy, hlast⟩ := h.ending.ended he
    refine ⟨last, n, hy, hlast.imp_right ?_⟩
    rintro ⟨f, oks, trailers, hm, hf, hl, hq⟩
    obtain ⟨_, -, -, hoks, hpassed, -⟩ := h.ending.marked f oks hm
    rw [Upload.passed, hq] at hpassed
    refine ⟨f, trailers, hoks ▸ hm, hf, hl, ?_⟩
    calc (dataOf s.yielded).flatten
      _ = (oks.flatMap (sentChunks call)).flatten := by rw [← hpassed]; simp [queuedData]
      _ = s.completed.flatMap (sentBytes call) := by
        rw [hoks, ← List.flatMap_id, List.flatMap_assoc]
        exact List.flatMap_congr fun i _ =>
          List.flatMap_id.trans (sentChunks_flatten call i)

variable [DecidableEq I]

/-- No frame follows a send that has given up with chunks left. -/
def FollowsNoGap (s : Upload I) (e : UploadEvent) : Prop := e = .enqueue → s.abandoned = false

theorem consistent_step (h : Consistent call s) (ha : FollowsNoGap s e)
    (hs : UploadStep call s e s') : Consistent call s' :=
  ⟨locked_step h.locked hs, accounted_step h.locked h.accounted hs ha, recorded_step h.recorded hs,
    ending_step h.locked h.accounted h.ending hs ha⟩

theorem upload_delivers (h : Reaches (UploadStep call) FollowsNoGap (uploadChannel I) s) :
    Delivered call s :=
  (h.invariant uploadChannel_consistent fun _ _ _ => consistent_step).delivered

def oneByte : Bool → UploadCall
  | false => .send [1]
  | true => .finish []

theorem upload_delivers_oneByte :
    ∃ s, Reaches (UploadStep oneByte) FollowsNoGap (uploadChannel Bool) s ∧ s.ended = true ∧
      s.yielded = [.data [1], .none] ∧ Delivered oneByte s := by
  have hchunks : chunks chunkBytes ([1] : Bytes) = [[1]] :=
    (chunks_cons (by decide) (List.cons_ne_nil 1 [])).trans (congrArg _ (chunks_nil chunkBytes))
  have h := @Reaches.refl _ _ (UploadStep oneByte) FollowsNoGap (uploadChannel Bool)
  have h := h.tail (fun _ => rfl) (.start (i := false) rfl rfl)
  have h := h.tail (fun _ => rfl) (.poll (i := false) rfl rfl)
  have h := h.tail (fun _ => rfl) (.lockSend (i := false) rfl rfl rfl rfl)
  rw [hchunks] at h
  have h := h.tail (fun _ => rfl) (.enqueue (i := false) rfl rfl (Nat.le_of_ble_eq_true rfl))
  have h := h.tail (fun _ => rfl) (.complete (i := false) rfl)
  have h := h.tail (fun _ => rfl) (.start (i := true) rfl rfl)
  have h := h.tail (fun _ => rfl) (.poll (i := true) rfl rfl)
  have h := h.tail (fun _ => rfl) (.lockFinish (i := true) rfl rfl rfl rfl)
  have h := h.tail (fun _ => rfl) (.mark (i := true) rfl rfl rfl (Nat.le_of_ble_eq_true rfl))
  have h := h.tail (fun _ => rfl) (.pollFrame rfl rfl rfl)
  have h := h.tail (fun _ => rfl) (.receiveData rfl rfl)
  have h := h.tail (fun _ => rfl) (.pollFrame rfl rfl rfl)
  have h := h.tail (fun _ => rfl) (.receiveFinish rfl rfl)
  exact ⟨_, h, rfl, rfl, upload_delivers h⟩

/-- A send of five chunks and a finish. -/
def fiveChunks : Bool → UploadCall
  | false => .send (List.replicate 5 (List.replicate chunkBytes 0)).flatten
  | true => .finish []

theorem fiveChunks_chunks (chunk : Bytes) (hc : chunk.length = chunkBytes) :
    chunks chunkBytes (List.replicate 5 chunk).flatten = List.replicate 5 chunk := by
  have hn : 0 < chunkBytes := by decide
  change chunks chunkBytes (chunk ++ (chunk ++ (chunk ++ (chunk ++ (chunk ++ []))))) = _
  rw [chunks_append hn hc, chunks_append hn hc, chunks_append hn hc, chunks_append hn hc,
    chunks_append hn hc, chunks_nil]
  rfl

/-- The send is dropped behind its fourth chunk: the finish has the lock before the guard runs. -/
theorem dropped_send_truncates :
    ∃ s, Reaches (UploadStep fiveChunks) (fun _ _ => True) (uploadChannel Bool) s ∧
      ¬ Delivered fiveChunks s := by
  obtain ⟨chunk, hchunk⟩ : ∃ chunk : Bytes, List.replicate chunkBytes 0 = chunk := ⟨_, rfl⟩
  have hchunks := fiveChunks_chunks chunk (by rw [← hchunk]; exact List.length_replicate)
  have hsend : fiveChunks false = .send (List.replicate 5 chunk).flatten := by
    rw [← hchunk]; rfl
  have h := @Reaches.refl _ _ (UploadStep fiveChunks) (fun _ _ => True) (uploadChannel Bool)
  have h := h.tail trivial (.start (i := false) rfl rfl)
  have h := h.tail trivial (.poll (i := false) rfl rfl)
  have h := h.tail trivial (.lockSend (i := false) rfl rfl rfl hsend)
  rw [hchunks] at h
  have h := h.tail trivial (.enqueue (i := false) rfl rfl (Nat.le_of_ble_eq_true rfl))
  have h := h.tail trivial (.enqueue (i := false) rfl rfl (Nat.le_of_ble_eq_true rfl))
  have h := h.tail trivial (.enqueue (i := false) rfl rfl (Nat.le_of_ble_eq_true rfl))
  have h := h.tail trivial (.enqueue (i := false) rfl rfl (Nat.le_of_ble_eq_true rfl))
  have h := h.tail trivial (.pend (i := false) rfl nofun)
  have h := h.tail trivial (.drop (i := false) rfl)
  have h := h.tail trivial (.pollFrame rfl rfl rfl)
  have h := h.tail trivial (.receiveData rfl rfl)
  have h := h.tail trivial (.pollFrame rfl rfl rfl)
  have h := h.tail trivial (.receiveData rfl rfl)
  have h := h.tail trivial (.pollFrame rfl rfl rfl)
  have h := h.tail trivial (.receiveData rfl rfl)
  have h := h.tail trivial (.pollFrame rfl rfl rfl)
  have h := h.tail trivial (.receiveData rfl rfl)
  have h := h.tail trivial (.start (i := true) rfl rfl)
  have h := h.tail trivial (.poll (i := true) rfl rfl)
  have h := h.tail trivial (.lockFinish (i := true) rfl rfl rfl rfl)
  have h := h.tail trivial (.mark (i := true) rfl rfl rfl (Nat.le_of_ble_eq_true rfl))
  have h := h.tail trivial (.pollFrame rfl rfl rfl)
  have h := h.tail trivial (.receiveFinish rfl rfl)
  refine ⟨_, h, fun hd => ?_⟩
  obtain ⟨last, n, hy, hlast⟩ := hd.ended rfl
  have hframes : List.replicate 4 (PollFrame.data chunk) ++ [PollFrame.none] =
      List.replicate 4 (PollFrame.data chunk) ++ last :: List.replicate n .none := hy
  have hnone := (List.cons.inj (List.append_cancel_left hframes)).1
  obtain ⟨_, rfl⟩ | ⟨_, _, _, _, _, hdata⟩ := hlast
  · exact nomatch hnone
  · have hempty : chunk ++ (chunk ++ (chunk ++ (chunk ++ []))) = [] := hdata
    have hlength := congrArg List.length (List.append_eq_nil_iff.1 hempty).1
    rw [← hchunk, List.length_replicate] at hlength
    exact absurd hlength (by decide)

end Delivery

end Dhttp.Api
