import Dhttp.Api.Requests
import Dhttp.Api.Scopes

namespace Dhttp.Api
open Dhttp.Lib
set_option autoImplicit true

namespace PumpPc

/-- Bytes taken from the upload that the window has not accepted. -/
def rest : PumpPc → Bytes
  | writing rest => rest
  | _ => []

def fields : PumpPc → HeaderMap
  | appending rest => rest
  | _ => []

/-- The upload has ended. -/
def Ended : PumpPc → Prop
  | closing | flushing | done => True
  | _ => False

def Published : PumpPc → Prop
  | flushing | done => True
  | _ => False

theorem Published.ended {p : PumpPc} (h : p.Published) : p.Ended := by
  cases p with
  | flushing => trivial
  | done => trivial
  | _ => exact h.elim

theorem Ended.rest_eq {p : PumpPc} (h : p.Ended) : p.rest = [] ∧ p.fields = [] := by
  cases p with
  | closing => exact ⟨rfl, rfl⟩
  | flushing => exact ⟨rfl, rfl⟩
  | done => exact ⟨rfl, rfl⟩
  | _ => exact h.elim

end PumpPc

namespace RequestPc

def pump? : RequestPc → Option PumpPc
  | running (.running pump _) _ => some pump
  | _ => none

def Connects : RequestPc → Prop
  | running .connecting _ => True
  | _ => False

theorem place_polled (exchange : ExchangePc) (polled polled' : Bool) :
    (running exchange polled).pump? = (running exchange polled').pump? ∧
      (running exchange polled).Connects = (running exchange polled').Connects := by
  cases exchange with
  | connecting => exact ⟨rfl, rfl⟩
  | running pump receive => exact ⟨rfl, rfl⟩

theorem isRunning_iff (task : RequestPc) :
    task.IsRunning ↔ task.Connects ∨ task.pump? ≠ none := by
  cases task with
  | running exchange polled =>
    cases exchange with
    | connecting => exact iff_of_true trivial (.inl trivial)
    | running pump receive => exact iff_of_true trivial (.inr nofun)
  | _ => exact iff_of_false id fun h => h.elim id fun hn => hn rfl

end RequestPc

theorem HeaderMap.appendAll_append (fields more more' : HeaderMap) :
    appendAll fields (more ++ more') = appendAll (appendAll fields more) more' :=
  List.foldl_append

section Uploads
variable {R : Type} {s s' : ClientRequest R}

/-- The bytes of the first `n` frames of an upload. -/
def uploadData (body : Option (Nat → PollFrame)) (n : Nat) : Bytes :=
  body.elim [] fun frames => (dataFrames frames n).flatten

def uploadTrailers (body : Option (Nat → PollFrame)) (n : Nat) : HeaderMap :=
  body.elim [] fun frames => trailerFields frames n

/-- The upload has no more than its first `n` frames, and none of them is an error. -/
def BodyEnds (body : Option (Nat → PollFrame)) (n : Nat) : Prop :=
  ∀ frames, body = some frames → Frames frames n ∧ frames n = .none

/-- What the peer has is the whole request. -/
structure WholeRequest (body : Option (Nat → PollFrame)) (initial : HeaderMap)
    (s : ClientRequest R) : Prop where
  ends : BodyEnds body s.taken
  sent : s.sent = uploadData body s.taken
  trailers : s.trailers = initial.appendAll (uploadTrailers body s.taken)

structure Pumping (body : Option (Nat → PollFrame)) (initial : HeaderMap) (s : ClientRequest R)
    (p : PumpPc) : Prop where
  sent : s.sent ++ p.rest = uploadData body s.taken
  trailers : s.trailers.appendAll p.fields = initial.appendAll (uploadTrailers body s.taken)
  frames : ∀ frames, body = some frames → Frames frames s.taken
  ends : p.Ended → BodyEnds body s.taken
  eof : s.eof = true ↔ p.Published
  finished : p = .done → s.upload = .finished

theorem Pumping.whole (h : Pumping body initial s p) (hp : p.Ended) :
    WholeRequest body initial s where
  ends := h.ends hp
  sent := by rw [← h.sent, hp.rest_eq.1, List.append_nil]
  trailers := by rw [← h.trailers, hp.rest_eq.2]; rfl

/-- A step of `pumping` takes a frame, hands on what it has, or ends the request. -/
theorem pumping_step (h : Pumping body initial s p) (hs : PumpStep body s p s' (.ok p')) :
    Pumping body initial s' p' := by
  have hdata {frames : Nat → PollFrame} {bytes : Bytes} (hb : body = some frames)
      (hf : frames s.taken = .data bytes) :
      uploadData body (s.taken + 1) = uploadData body s.taken ++ bytes ∧
        uploadTrailers body (s.taken + 1) = uploadTrailers body s.taken := by
    subst hb
    simp only [uploadData, uploadTrailers, Option.elim, dataFrames_data hf,
      trailerFields_data hf, List.flatten_append, List.flatten_singleton, and_self]
  have hfields {frames : Nat → PollFrame} {fields : HeaderMap} (hb : body = some frames)
      (hf : frames s.taken = .trailers fields) :
      uploadData body (s.taken + 1) = uploadData body s.taken ∧
        uploadTrailers body (s.taken + 1) = uploadTrailers body s.taken ++ fields := by
    subst hb
    simp only [uploadData, uploadTrailers, Option.elim, dataFrames_trailers hf,
      trailerFields_trailers hf, and_self]
  cases hs with
  | noBody hb =>
    refine ⟨h.sent, h.trailers, h.frames, ?_, h.eof, nofun⟩
    intro _ frames hf
    rw [hb] at hf
    cases hf
  | data hb hf =>
    refine ⟨?_, ?_, ?_, False.elim, h.eof, nofun⟩
    · rw [(hdata hb hf).1, ← h.sent, List.append_assoc]
      rfl
    · rw [(hdata hb hf).2, ← h.trailers]
      rfl
    · intro frames' hb'
      have he : _ = frames' := Option.some.inj (hb.symm.trans hb')
      rw [← he]
      apply (h.frames _ hb).succ
      rw [hf]
      trivial
  | trailers hb hf =>
    refine ⟨?_, ?_, ?_, False.elim, h.eof, nofun⟩
    · rw [(hfields hb hf).1, ← h.sent]
      rfl
    · rw [(hfields hb hf).2, HeaderMap.appendAll_append, ← h.trailers]
      rfl
    · intro frames' hb'
      have he : _ = frames' := Option.some.inj (hb.symm.trans hb')
      rw [← he]
      apply (h.frames _ hb).succ
      rw [hf]
      trivial
  | bodyEnds hb hf =>
    refine ⟨h.sent, h.trailers, h.frames, ?_, h.eof, nofun⟩
    intro _ frames' hb'
    have he : _ = frames' := Option.some.inj (hb.symm.trans hb')
    rw [← he]
    exact ⟨h.frames _ hb, hf⟩
  | write hn hl =>
    refine ⟨?_, h.trailers, h.frames, False.elim, h.eof, nofun⟩
    rw [← h.sent, List.append_assoc]
    exact congrArg _ (List.take_append_drop _ _)
  | written => exact ⟨h.sent, h.trailers, h.frames, False.elim, h.eof, nofun⟩
  | append hu => exact ⟨h.sent, h.trailers, h.frames, False.elim, h.eof, nofun⟩
  | appended => exact ⟨h.sent, h.trailers, h.frames, False.elim, h.eof, nofun⟩
  | publish =>
    exact ⟨h.sent, h.trailers, h.frames, fun _ => h.ends trivial, iff_of_true rfl trivial, nofun⟩
  | finish hu =>
    exact ⟨h.sent, h.trailers, h.frames, fun _ => h.ends trivial, h.eof, fun _ => hu⟩

theorem pumpStep_error (hs : PumpStep body s p s' (.error error)) : s' = s := by
  cases hs <;> rfl

theorem pumpStep_task (hs : PumpStep body s p s' result) :
    s'.state = s.state ∧ s'.sender = s.sender ∧ s'.message = s.message ∧
      s'.future = s.future ∧ s'.upload = s.upload ∧ s'.received = s.received ∧
      s'.read = s.read ∧ s'.outcome = s.outcome := by
  cases hs <;> exact ⟨rfl, rfl, rfl, rfl, rfl, rfl, rfl, rfl⟩

theorem hangUp_upload (s : ClientRequest R) : s.hangUp.upload ≠ .running := by
  rw [ClientRequest.hangUp]
  split
  · nofun
  · assumption

/-- What has left for the peer. -/
structure SameUpload (s s' : ClientRequest R) : Prop where
  taken : s'.taken = s.taken
  sent : s'.sent = s.sent
  trailers : s'.trailers = s.trailers
  eof : s'.eof = s.eof

theorem receiveStep_upload (hs : ReceiveStep s r s' result) : SameUpload s s' := by
  cases hs <;> exact ⟨rfl, rfl, rfl, rfl⟩

theorem hangUp_hangUp (s : ClientRequest R) : s.hangUp.hangUp.upload = s.hangUp.upload :=
  if_neg (hangUp_upload s)

theorem receiveStep_hangUp (hs : ReceiveStep s r s' result) :
    s'.hangUp.upload = s.hangUp.upload := by
  cases hs with
  | responseFails => exact hangUp_hangUp s
  | _ => rfl

theorem receiveStep_ok (hs : ReceiveStep s r s' (.ok r')) : s'.upload = s.upload := by
  cases hs <;> rfl

/-- What is kept about the upload of a request all along. -/
structure Uploading (body : Option (Nat → PollFrame)) (initial : HeaderMap)
    (s : ClientRequest R) : Prop where
  sent : s.sent <+: uploadData body s.taken
  eof : s.eof = true → WholeRequest body initial s
  pumping : ∀ p, s.task.pump? = some p → Pumping body initial s p
  connecting : s.task.Connects → s.taken = 0 ∧ s.sent = [] ∧ s.trailers = initial ∧
    s.eof = false ∧ s.upload = .unopened
  closed : ¬ s.task.IsRunning → s.upload ≠ .running

theorem SameUpload.whole (hs : SameUpload s s') (h : WholeRequest body initial s) :
    WholeRequest body initial s' := by
  constructor
  · rw [hs.taken]
    exact h.ends
  · rw [hs.sent, hs.taken]
    exact h.sent
  · rw [hs.trailers, hs.taken]
    exact h.trailers

theorem SameUpload.pumping (hs : SameUpload s s') (hu : p = .done → s'.upload = .finished)
    (h : Pumping body initial s p) : Pumping body initial s' p := by
  refine ⟨?_, ?_, ?_, ?_, ?_, hu⟩
  · rw [hs.sent, hs.taken]
    exact h.sent
  · rw [hs.trailers, hs.taken]
    exact h.trailers
  · rw [hs.taken]
    exact h.frames
  · rw [hs.taken]
    exact h.ends
  · rw [hs.eof]
    exact h.eof

/-- The task goes on where it is, or its exchange is over. -/
theorem uploading_same (h : Uploading body initial s) (hs : SameUpload s s')
    (hu : s'.upload = s.upload ∨ s.upload = .running ∧ s'.upload ≠ .running)
    (hp : ∀ p, s'.task.pump? = some p → s.task.pump? = some p)
    (hc : s'.task.Connects → s.task.Connects)
    (hr : ¬ s'.task.IsRunning → s'.upload ≠ .running) : Uploading body initial s' := by
  constructor
  · rw [hs.sent, hs.taken]
    exact h.sent
  · intro he
    rw [hs.eof] at he
    exact hs.whole (h.eof he)
  · intro p hpump
    have hold := h.pumping p (hp p hpump)
    apply hs.pumping _ hold
    intro hd
    rcases hu with hu | ⟨hu, -⟩
    · rw [hu]
      exact hold.finished hd
    · rw [hold.finished hd] at hu
      cases hu
  · intro hconnect
    obtain ⟨ht, hsent, htrailers, heof, hupload⟩ := h.connecting (hc hconnect)
    rw [hs.taken, hs.sent, hs.trailers, hs.eof]
    refine ⟨ht, hsent, htrailers, heof, ?_⟩
    rcases hu with hu | ⟨hu, -⟩
    · rw [hu]
      exact hupload
    · rw [hupload] at hu
      cases hu
  · exact hr

/-- The exchange is over. -/
theorem uploading_over (h : Uploading body initial s) (hs : SameUpload s s')
    (hu : s'.upload = s.upload ∨ s.upload = .running ∧ s'.upload ≠ .running)
    (hr : s'.upload ≠ .running) (ht : ¬ s'.task.IsRunning) : Uploading body initial s' := by
  have hnone := not_or.1 (mt (RequestPc.isRunning_iff _).2 ht)
  refine uploading_same h hs hu ?_ (fun hc => (hnone.1 hc).elim) fun _ => hr
  intro p hp
  rw [hp] at hnone
  exact (hnone.2 nofun).elim

theorem hangUp_cases (s : ClientRequest R) :
    s.hangUp.upload = s.upload ∨ s.upload = .running ∧ s.hangUp.upload ≠ .running := by
  by_cases hu : s.upload = .running
  · exact .inr ⟨hu, hangUp_upload s⟩
  · exact .inl (if_neg hu)

/-- A task that has dropped its exchange has dropped the writer. -/
theorem uploading_hangUp (h : Uploading body initial s) (hs : SameUpload s s')
    (hu : s'.upload = s.hangUp.upload) (ht : ¬ s'.task.IsRunning) :
    Uploading body initial s' := by
  apply uploading_over h hs
  · rw [hu]
    exact hangUp_cases s
  · rw [hu]
    exact hangUp_upload s
  · exact ht

theorem pumping_start (ht : s.taken = 0) (hs : s.sent = []) (hi : s.trailers = initial)
    (he : s.eof ≠ true) : Pumping body initial s .waiting := by
  have hempty : uploadData body 0 = [] ∧ uploadTrailers body 0 = [] := by
    cases body with
    | none => exact ⟨rfl, rfl⟩
    | some frames => exact ⟨rfl, rfl⟩
  refine ⟨?_, ?_, ?_, False.elim, iff_of_false he id, nofun⟩
  · rw [hs, ht, hempty.1]
    rfl
  · rw [hi, ht, hempty.2]
    rfl
  · intro frames _ m hm
    rw [ht] at hm
    exact (Nat.not_lt_zero m hm).elim

theorem uploading_task (h : Uploading body initial s) (hs : RequestTaskStep body timed s s') :
    Uploading body initial s' := by
  have hgoes {exchange : ExchangePc} {polled polled' : Bool}
      (ht : s.task = .running exchange polled) :
      Uploading body initial (s.go (.running exchange polled')) := by
    have hsame : SameUpload s (s.go (.running exchange polled')) := ⟨rfl, rfl, rfl, rfl⟩
    have hplace := RequestPc.place_polled exchange polled polled'
    apply uploading_same h hsame (.inl rfl)
    · intro p hp
      rw [ht, hplace.1]
      exact hp
    · intro hc
      rw [ht, hplace.2]
      exact hc
    · exact fun hr => (hr trivial).elim
  have hends {task : RequestPc} (ht : ¬ s.task.IsRunning) (h' : s'.task = task)
      (hs : SameUpload s s') (hu : s'.upload = s.upload) (hr : ¬ task.IsRunning) :
      Uploading body initial s' := by
    apply uploading_over h hs (.inl hu)
    · rw [hu]
      exact h.closed ht
    · rw [h']
      exact hr
  cases hs with
  | poll ht | pend ht => exact hgoes ht
  | interrupt | deadline => exact uploading_hangUp h ⟨rfl, rfl, rfl, rfl⟩ rfl id
  | connect ht =>
    obtain ⟨htaken, hsent, htrailers, heof, -⟩ := h.connecting (by rw [ht]; trivial)
    have hwhole : s.eof ≠ true := by
      rw [heof]
      nofun
    refine ⟨h.sent, fun he => (hwhole he).elim, ?_, False.elim, fun hr => (hr trivial).elim⟩
    intro p hp
    cases hp
    exact pumping_start htaken hsent htrailers hwhole
  | connectFails ht =>
    obtain ⟨-, -, -, -, hupload⟩ := h.connecting (by rw [ht]; trivial)
    refine uploading_over h ⟨rfl, rfl, rfl, rfl⟩ (.inl rfl) ?_ id
    change s.upload ≠ .running
    rw [hupload]
    nofun
  | pump ht hp =>
    have hold := h.pumping _ (by rw [ht]; rfl)
    have hnew := pumping_step hold hp
    refine ⟨⟨_, hnew.sent⟩, ?_, ?_, False.elim, fun hr => (hr trivial).elim⟩
    · intro he
      obtain ⟨hends, hsent, htrailers⟩ := hnew.whole (hnew.eof.1 he).ended
      exact ⟨hends, hsent, htrailers⟩
    · intro p he
      cases he
      exact ⟨hnew.sent, hnew.trailers, hnew.frames, hnew.ends, hnew.eof, hnew.finished⟩
  | pumpFails ht hp =>
    rw [pumpStep_error hp]
    exact uploading_hangUp h ⟨rfl, rfl, rfl, rfl⟩ rfl id
  | receive ht hr =>
    have hsame := receiveStep_upload hr
    have hupload := receiveStep_ok hr
    refine uploading_same h ⟨hsame.taken, hsame.sent, hsame.trailers, hsame.eof⟩
      (.inl hupload) ?_ False.elim fun hn => (hn trivial).elim
    intro p hp
    rw [ht]
    exact hp
  | receiveFails ht hr =>
    have hsame := receiveStep_upload hr
    exact uploading_hangUp h ⟨hsame.taken, hsame.sent, hsame.trailers, hsame.eof⟩
      (receiveStep_hangUp hr) id
  | complete ht =>
    have hdone := h.pumping .done (by rw [ht]; rfl)
    refine uploading_over h ⟨rfl, rfl, rfl, rfl⟩ (.inl rfl) ?_ id
    change s.upload ≠ .running
    rw [hdone.finished rfl]
    nofun
  | readError ht | store ht | cancel ht | answer ht | succeed ht | release ht =>
    exact hends (by rw [ht]; exact id) rfl ⟨rfl, rfl, rfl, rfl⟩ rfl id

theorem uploading_owner (h : Uploading body initial s) (hs : RequestOwnerStep s s') :
    Uploading body initial s' := by
  cases hs with
  | dropTask ht => exact uploading_hangUp h ⟨rfl, rfl, rfl, rfl⟩ rfl id
  | uploadEnds hu =>
    have hend : UploadTask.finished ≠ .running := nofun
    exact uploading_same h ⟨rfl, rfl, rfl, rfl⟩ (.inr ⟨hu, hend⟩) (fun _ => id) id fun _ => hend
  | _ => exact uploading_same h ⟨rfl, rfl, rfl, rfl⟩ (.inl rfl) (fun _ => id) id h.closed

end Uploads

end Dhttp.Api
