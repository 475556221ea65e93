import Dhttp.Api.ReceiveBridge

namespace Dhttp.Api
open Dhttp.Lib
set_option autoImplicit true

/-- Header fields as they cross the language boundary. -/
abbrev Fields := List (List Char × Bytes)

/-- What the `http` crate decides of the names, the values and the status of a message; it refuses
with a text. -/
structure HttpRules where
  name : List Char → Except String (List Char)
  value : Bytes → Except String Bytes
  status : Nat → Except String Nat

namespace HttpRules

def field (rules : HttpRules) (field : List Char × Bytes) : Except Error (List Char × Bytes) := do
  let name ← (rules.name field.1).mapError invalid
  let value ← (rules.value field.2).mapError invalid
  pure (name, value)

def headers (rules : HttpRules) (fields : Fields) : Except Error HeaderMap :=
  fields.foldlM (fun headers field => do
    let field ← rules.field field
    pure (HeaderMap.append field.1 field.2 headers)) []

end HttpRules

/-- What `respond` is called with. -/
structure RespondCall where
  status : Nat
  fields : Fields

def RespondCall.check (rules : HttpRules) (call : RespondCall) :
    Except Error (Nat × HeaderMap) := do
  let status ← (rules.status call.status).mapError invalid
  if 100 ≤ status ∧ status < 200 then
    throw (invalid "intermediate responses are not supported")
  let headers ← rules.headers call.fields
  pure (status, headers)

/-- A response with the upload channel that is its body. -/
structure NativeResponse where
  status : Nat
  headers : HeaderMap
  body : Nat
  deriving DecidableEq

def alreadySent : Error := .new .closed "response already sent"

def handlerCancelled : Error := .new .closed "handler cancelled"

/-- Where the handler of a native server is: in the callback, with the promise that this has
returned, or with the response. -/
inductive HandlerPc where
  | calling
  | promised
  | receiving
  | answered (response : NativeResponse)
  /-- The callback or its promise has failed. -/
  | failed (reason : String)
  | unanswered
  | dropped
  deriving DecidableEq

namespace HandlerPc

def Over : HandlerPc → Prop
  | answered _ | failed _ | unanswered | dropped => True
  | calling | promised | receiving => False

/-- What the future of the handler gives. -/
def result : HandlerPc → Option (Except Error NativeResponse)
  | calling | promised | receiving | dropped => none
  | answered response => some (.ok response)
  | failed reason => some (.error (.new .producer reason))
  | unanswered => some (.error (.new .producer "handler did not return a response"))

end HandlerPc

/-- A call of `respond` with the channel whose writer it has returned. -/
structure Responded where
  call : RespondCall
  result : Except Error Nat

/-- The handler of a request and the request as the callback has it: `holders` says how often,
`sender` whether the sender of the response is still in its slot. On record: the calls of
`respond`. -/
structure NativeServe where
  pc : HandlerPc
  holders : Nat
  sender : Bool
  sent : Option NativeResponse
  calls : List Responded

/-- `Incoming::new`, with the callback begun. -/
def nativeServe : NativeServe where
  pc := .calling
  holders := 1
  sender := true
  sent := none
  calls := []

namespace NativeServe

def go (s : NativeServe) (pc : HandlerPc) : NativeServe := { s with pc := pc }

/-- A call of `respond` returns. -/
def returns (s : NativeServe) (call : RespondCall) (result : Except Error Nat) : NativeServe :=
  { s with calls := s.calls ++ [⟨call, result⟩] }

end NativeServe

/-- A step of the handler, of the callback or of others that have the request. The lock of the
slot is held from the look into it to the end of the sending. -/
inductive NativeStep (rules : HttpRules) : NativeServe → Unit → NativeServe → Prop
  | refuse {s : NativeServe} (hh : 0 < s.holders) (hc : call.check rules = .error error) :
    NativeStep rules s e (s.returns call (.error error))
  | used {s : NativeServe} (hh : 0 < s.holders) (hc : call.check rules = .ok (status, headers))
      (hs : s.sender = false) : NativeStep rules s e (s.returns call (.error alreadySent))
  | send {s : NativeServe} (hh : 0 < s.holders) (hc : call.check rules = .ok (status, headers))
      (hs : s.sender = true) (hp : ¬ s.pc.Over) :
    NativeStep rules s e { s.returns call (.ok s.calls.length) with
      sender := false
      sent := some ⟨status, headers, s.calls.length⟩ }
  | cancelled {s : NativeServe} (hh : 0 < s.holders)
      (hc : call.check rules = .ok (status, headers)) (hs : s.sender = true) (hp : s.pc.Over) :
    NativeStep rules s e { s.returns call (.error handlerCancelled) with sender := false }
  | share {s : NativeServe} (hh : 0 < s.holders) :
    NativeStep rules s e { s with holders := s.holders + 1 }
  | release {s : NativeServe} (hh : 1 < s.holders) :
    NativeStep rules s e { s with holders := s.holders - 1 }
  | releaseLast {s : NativeServe} (hh : s.holders = 1) :
    NativeStep rules s e { s with holders := 0, sender := false }
  | fail {s : NativeServe} (reason : String) (hp : s.pc = .calling ∨ s.pc = .promised) :
    NativeStep rules s e (s.go (.failed reason))
  | promise {s : NativeServe} (hp : s.pc = .calling) : NativeStep rules s e (s.go .promised)
  | resolve {s : NativeServe} (hp : s.pc = .calling ∨ s.pc = .promised) :
    NativeStep rules s e (s.go .receiving)
  | receive {s : NativeServe} (hp : s.pc = .receiving) (hs : s.sent = some response) :
    NativeStep rules s e (s.go (.answered response))
  | receiveNone {s : NativeServe} (hp : s.pc = .receiving) (hs : s.sent = none)
      (hn : s.sender = false) : NativeStep rules s e (s.go .unanswered)
  | drop {s : NativeServe} (hp : ¬ s.pc.Over) : NativeStep rules s e (s.go .dropped)

/-- What came of a call of `respond` that was not well formed. -/
def Responded.Refused (rules : HttpRules) (r : Responded) : Prop :=
  ∃ error, r.call.check rules = .error error ∧ r.result = .error error

/-- A well-formed call that found the slot empty. -/
def Responded.Late (rules : HttpRules) (r : Responded) : Prop :=
  (∃ message, r.call.check rules = .ok message) ∧ r.result = .error alreadySent

/-- A well-formed call that emptied the slot: its response was sent, or the handler was over. -/
def Responded.Uses (rules : HttpRules) (r : Responded) (body : Nat) (sent : Option NativeResponse) :
    Prop :=
  ∃ status headers, r.call.check rules = .ok (status, headers) ∧
    ((r.result = .ok body ∧ sent = some ⟨status, headers, body⟩) ∨
      (r.result = .error handlerCancelled ∧ sent = none))

/-- No call has emptied the slot. -/
structure Unused (rules : HttpRules) (calls : List Responded) (sent : Option NativeResponse) :
    Prop where
  unsent : sent = none
  refused : ∀ r ∈ calls, r.Refused rules

/-- One call has emptied the slot. -/
def Used (rules : HttpRules) (calls : List Responded) (sent : Option NativeResponse) : Prop :=
  ∃ before r after, calls = before ++ r :: after ∧ (∀ r ∈ before, r.Refused rules) ∧
    r.Uses rules before.length sent ∧ ∀ r ∈ after, r.Refused rules ∨ r.Late rules

/-- Only a holder finds the sender in its slot, and finds it unless a call has emptied it. -/
def NativeServe.Slot (rules : HttpRules) (s : NativeServe) : Prop :=
  (s.sender = true → 0 < s.holders) ∧
    ((Unused rules s.calls s.sent ∧ (0 < s.holders → s.sender = true)) ∨
      (s.sender = false ∧ Used rules s.calls s.sent))

structure NativeInv (rules : HttpRules) (s : NativeServe) : Prop where
  slot : s.Slot rules
  answered : ∀ response, s.pc = .answered response → s.sent = some response
  unanswered : s.pc = .unanswered → s.sent = none

section Runs
variable {rules : HttpRules} {s s' : NativeServe}

theorem Unused.refuse (h : Unused rules calls sent) (hr : r.Refused rules) :
    Unused rules (calls ++ [r]) sent where
  unsent := h.unsent
  refused x hm := by
    obtain hm | hm := List.mem_append.1 hm
    · exact h.refused x hm
    · cases List.mem_singleton.1 hm
      exact hr

theorem Unused.use (h : Unused rules calls sent) (hr : r.Uses rules calls.length sent') :
    Used rules (calls ++ [r]) sent' := ⟨calls, r, [], rfl, h.refused, hr, nofun⟩

theorem Used.more (h : Used rules calls sent) (hr : r'.Refused rules ∨ r'.Late rules) :
    Used rules (calls ++ [r']) sent := by
  obtain ⟨before, r, after, rfl, hfirst, huses, hrest⟩ := h
  refine ⟨before, r, after ++ [r'], ?_, hfirst, huses, fun x hm => ?_⟩
  · rw [List.append_assoc, List.cons_append]
  · obtain hm | hm := List.mem_append.1 hm
    · exact hrest x hm
    · cases List.mem_singleton.1 hm
      exact hr

theorem slot_step (h : s.Slot rules) (hs : NativeStep rules s e s') : s'.Slot rules := by
  obtain ⟨hsender, hslot⟩ := h
  cases hs with
  | refuse hh hc =>
    exact ⟨hsender, hslot.imp (fun hu => ⟨hu.1.refuse ⟨_, hc, rfl⟩, hu.2⟩)
      fun hu => ⟨hu.1, hu.2.more (.inl ⟨_, hc, rfl⟩)⟩⟩
  | used hh hc hn =>
    obtain ⟨-, hn'⟩ | ⟨-, hused⟩ := hslot
    · exact nomatch hn.symm.trans (hn' hh)
    · exact ⟨hsender, .inr ⟨hn, hused.more (.inr ⟨⟨_, hc⟩, rfl⟩)⟩⟩
  | send hh hc hn hp =>
    obtain ⟨hunused, -⟩ | ⟨hn', -⟩ := hslot
    · exact ⟨nofun, .inr ⟨rfl, hunused.use ⟨_, _, hc, .inl ⟨rfl, rfl⟩⟩⟩⟩
    · exact nomatch hn.symm.trans hn'
  | cancelled hh hc hn hp =>
    obtain ⟨hunused, -⟩ | ⟨hn', -⟩ := hslot
    · exact ⟨nofun, .inr ⟨rfl, hunused.use ⟨_, _, hc, .inr ⟨rfl, hunused.unsent⟩⟩⟩⟩
    · exact nomatch hn.symm.trans hn'
  | share hh =>
    exact ⟨fun _ => Nat.succ_pos _, hslot.imp_left fun hu => ⟨hu.1, fun _ => hu.2 hh⟩⟩
  | release hh =>
    exact ⟨fun _ => Nat.sub_pos_of_lt hh,
      hslot.imp_left fun hu => ⟨hu.1, fun _ => hu.2 (Nat.zero_lt_of_lt hh)⟩⟩
  | releaseLast hh =>
    exact ⟨nofun, hslot.imp (fun hu => ⟨hu.1, nofun⟩) fun hu => ⟨rfl, hu.2⟩⟩
  | fail | promise | resolve | receive | receiveNone | drop => exact ⟨hsender, hslot⟩

/-- What is sent and where the handler is at its end are decided by then. -/
theorem over_step (hp : s.pc.Over) (hs : NativeStep rules s e s') :
    s'.pc = s.pc ∧ s'.sent = s.sent := by
  cases hs with
  | refuse | used | cancelled | share | release | releaseLast => exact ⟨rfl, rfl⟩
  | send _ _ _ hn | drop hn => exact absurd hp hn
  | fail _ hn | resolve hn =>
    obtain hn | hn := hn <;> exact (by rw [hn] at hp; exact hp : False).elim
  | promise hn | receive hn | receiveNone hn =>
    rw [hn] at hp
    exact hp.elim

/-- How the handler comes to its end with the response. -/
theorem over_reached (hp : ¬ s.pc.Over) (hs : NativeStep rules s e s') :
    (∀ response, s'.pc = .answered response → s'.sent = some response) ∧
      (s'.pc = .unanswered → s'.sent = none) := by
  have hsame : s'.pc = s.pc → (∀ response, s'.pc = .answered response → s'.sent = some response) ∧
      (s'.pc = .unanswered → s'.sent = none) := by
    intro hpc
    rw [hpc]
    exact ⟨fun _ he => absurd (by rw [he]; trivial) hp, fun he => absurd (by rw [he]; trivial) hp⟩
  cases hs with
  | refuse | used | send | cancelled | share | release | releaseLast => exact hsame rfl
  | fail | promise | resolve | drop => exact ⟨nofun, nofun⟩
  | receive _ hsent =>
    refine ⟨fun response he => ?_, nofun⟩
    cases he
    exact hsent
  | receiveNone _ hsent => exact ⟨nofun, fun _ => hsent⟩

theorem native_step (h : NativeInv rules s) (hs : NativeStep rules s e s') :
    NativeInv rules s' := by
  by_cases hp : s.pc.Over
  · obtain ⟨hpc, hsent⟩ := over_step hp hs
    exact ⟨slot_step h.slot hs, fun response he => hsent.trans (h.answered response (hpc ▸ he)),
      fun he => hsent.trans (h.unanswered (hpc ▸ he))⟩
  · obtain ⟨hanswered, hunanswered⟩ := over_reached hp hs
    exact ⟨slot_step h.slot hs, hanswered, hunanswered⟩

theorem foldlM_fields {fields : Fields} {start headers : HeaderMap}
    (h : fields.foldlM (fun headers field => do
      let field ← rules.field field
      pure (HeaderMap.append field.1 field.2 headers)) start = .ok headers) :
    ∃ parsed, List.Forall₂ (fun field p => rules.field field = .ok p) fields parsed ∧
      headers = HeaderMap.appendAll start parsed := by
  induction fields generalizing start with
  | nil =>
    cases h
    exact ⟨[], .nil, rfl⟩
  | cons field fields ih =>
    rw [List.foldlM_cons] at h
    cases hf : rules.field field with
    | error error =>
      rw [hf] at h
      cases h
    | ok p =>
      rw [hf] at h
      obtain ⟨parsed, hparsed, rfl⟩ := ih h
      exact ⟨p :: parsed, .cons hf hparsed, rfl⟩

/-- A response has the fields of its call, and loses no value. -/
theorem check_ok {call : RespondCall} (h : call.check rules = .ok (status, headers)) :
    ∃ parsed, List.Forall₂ (fun field p => rules.field field = .ok p) call.fields parsed ∧
      ∀ name, HeaderMap.getAll name headers = HeaderMap.getAll name parsed := by
  have hheaders : rules.headers call.fields = .ok headers := by
    rw [RespondCall.check] at h
    cases hstatus : rules.status call.status with
    | error error =>
      rw [hstatus] at h
      cases h
    | ok code =>
      rw [hstatus] at h
      change (if 100 ≤ code ∧ code < 200 then _ else _) = _ at h
      split at h
      · cases h
      · cases hfields : rules.headers call.fields with
        | error error =>
          rw [hfields] at h
          cases h
        | ok found =>
          rw [hfields] at h
          cases h
          rfl
  obtain ⟨parsed, hparsed, rfl⟩ := foldlM_fields hheaders
  exact ⟨parsed, hparsed, fun name => HeaderMap.getAll_appendAll name [] parsed⟩

/-- What the callback and the caller of a native handler can go by. -/
structure NativeGuarantees (rules : HttpRules) (s : NativeServe) : Prop where
  calls : Unused rules s.calls s.sent ∨ Used rules s.calls s.sent
  answered : ∀ response, s.pc.result = some (.ok response) → s.sent = some response
  unanswered : s.pc = .unanswered → s.sent = none
  waits : s.pc = .receiving → s.sent = none → s.holders = 0 →
    NativeStep rules s () (s.go .unanswered)
  final : s.pc.Over → ∀ s', Reaches (NativeStep rules) (fun _ _ => True) s s' →
    s'.pc = s.pc ∧ s'.sent = s.sent
  headers : ∀ response, s.sent = some response → ∃ r ∈ s.calls, r.result = .ok response.body ∧
    ∃ parsed, List.Forall₂ (fun field p => rules.field field = .ok p) r.call.fields parsed ∧
      ∀ name, HeaderMap.getAll name response.headers = HeaderMap.getAll name parsed

theorem NativeInv.guarantees (h : NativeInv rules s) : NativeGuarantees rules s where
  calls := h.slot.2.imp And.left And.right
  answered response he := by
    cases hp : s.pc with
    | answered found =>
      rw [hp] at he
      cases he
      exact h.answered response hp
    | calling | promised | receiving | failed | unanswered | dropped =>
      rw [hp] at he
      cases he
  unanswered := h.unanswered
  waits hp hs hh := by
    refine .receiveNone hp hs ?_
    cases hn : s.sender with
    | false => rfl
    | true =>
      have hpos := h.slot.1 hn
      omega
  final hp s' hr := by
    refine @Reaches.invariant _ _ _ _ _ _ (fun t => t.pc = s.pc ∧ t.sent = s.sent) hr ⟨rfl, rfl⟩
      fun t _ t' ht _ hs => ?_
    obtain ⟨hpc, hsent⟩ := over_step (ht.1 ▸ hp) hs
    exact ⟨hpc.trans ht.1, hsent.trans ht.2⟩
  headers response hs := by
    obtain ⟨hunused, -⟩ | ⟨-, before, r, after, hcalls, -, huses, -⟩ := h.slot.2
    · exact nomatch hunused.unsent.symm.trans hs
    · obtain ⟨status, headers, hc, ⟨hr, hsent⟩ | ⟨-, hsent⟩⟩ := huses
      · rw [hsent] at hs
        cases hs
        refine ⟨r, ?_, hr, check_ok hc⟩
        rw [hcalls]
        exact List.mem_append_right _ List.mem_cons_self
      · exact nomatch hsent.symm.trans hs

/-- A native handler in any interleaving with its callback and with everybody who has the request:
at most one call sends a response, and it is what the handler answers if it comes to that. -/
theorem native_handler_guarantees
    (h : Reaches (NativeStep rules) (fun _ _ => True) nativeServe s) :
    NativeGuarantees rules s := by
  have hinv : NativeInv rules s :=
    h.invariant ⟨⟨fun _ => Nat.one_pos, .inl ⟨⟨rfl, nofun⟩, fun _ => rfl⟩⟩, nofun, nofun⟩
      fun _ _ _ hi _ hs => native_step hi hs
  exact hinv.guarantees

end Runs

/-- Takes all fields and all statuses as they are. -/
def lenientRules : HttpRules := ⟨.ok, .ok, .ok⟩

/-- The callback answers twice, with the handler done in between. -/
theorem native_handler_guarantees_twice :
    ∃ s, Reaches (NativeStep lenientRules) (fun _ _ => True) nativeServe s ∧
      s.calls.map Responded.result = [.ok 0, .error alreadySent] ∧
      s.pc.result = some (.ok ⟨200, [], 0⟩) ∧ NativeGuarantees lenientRules s := by
  have hcheck : RespondCall.check lenientRules ⟨200, []⟩ = .ok (200, []) := rfl
  have hrun : ∃ s, Reaches (NativeStep lenientRules) (fun _ _ => True) nativeServe s ∧
      s.calls.map Responded.result = [.ok 0, .error alreadySent] ∧
      s.pc.result = some (.ok ⟨200, [], 0⟩) :=
    ⟨_, Reaches.refl.tail (by trivial) (.send (e := ()) Nat.one_pos hcheck rfl id)
      |>.tail (by trivial) (.resolve (e := ()) (.inl rfl))
      |>.tail (by trivial) (.receive (e := ()) rfl rfl)
      |>.tail (by trivial) (.used (e := ()) Nat.one_pos hcheck rfl), rfl, rfl⟩
  obtain ⟨s, hs, hcalls, hresult⟩ := hrun
  exact ⟨s, hs, hcalls, hresult, native_handler_guarantees hs⟩

end Dhttp.Api
