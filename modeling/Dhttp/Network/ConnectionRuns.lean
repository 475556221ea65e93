import Dhttp.Network.Connections

namespace Dhttp.Network
open Dhttp.Lib Dhttp.Client
set_option autoImplicit true

/-- The listen is listed no more. -/
def CallPc.Gone : CallPc I C S R E → Prop
  | listen .unregistering | listen .releasing | listen .dropped => True
  | _ => False

theorem CallPc.Gone.not_exists {pc : CallPc I C S R E} (h : pc.Gone) : ¬ pc.Exists := by
  cases pc with
  | listen pc => cases pc <;> exact fun he => by trivial
  | idle | reload | refusing | failed => exact h.elim

def rejection : List (Signal Response) := [.stop .requestRejected, .cancel .requestRejected]

namespace StreamPc
variable {H : HttpCrate} {Response : Type}

/-- The loop of the connection has the stream. -/
def InLoop : StreamPc H Response → Prop
  | accepted | listed | unlisted => True
  | _ => False

def Ended : StreamPc H Response → Prop
  | rejected | finished _ | panicked => True
  | _ => False

end StreamPc

namespace Stream
variable {I K Response : Type} {H : HttpCrate}

/-- A reply was begun, and the service called if the reply is its own. -/
def Replied (stream : Stream I K H Response) (called : Prop) : Prop :=
  ∃ r, stream.signals = [.reply r] ∧ (called ↔ r ≠ .misdirected)

/-- What the place of a stream says of its service and of its directions. -/
def At (stream : Stream I K H Response) (called : Prop) : StreamPc H Response → Prop
  | .accepted | .unlisted => stream.service = none ∧ stream.signals = [] ∧ ¬ called
  | .rejected => stream.service = none ∧ stream.signals = rejection ∧ ¬ called
  | .listed | .reading | .waiting _ => stream.service ≠ none ∧ stream.signals = [] ∧ ¬ called
  | .calling _ => stream.service ≠ none ∧ stream.signals = [] ∧ called
  | .writing r => stream.service ≠ none ∧ stream.signals = [.reply r] ∧
      (called ↔ r ≠ .misdirected)
  | .finished (.error .read) | .finished (.error .service) =>
      stream.service ≠ none ∧ stream.signals = [.cancel .requestCancelled]
  | .finished _ => stream.service ≠ none ∧ stream.Replied called
  | .panicked => stream.service ≠ none ∧
      (stream.signals = [.cancel .requestCancelled] ∨ stream.Replied called)

end Stream

namespace Serving
variable {I C S R E K T Response : Type} {H : HttpCrate}

/-- The key and the handshake of a connection. -/
def peers (s : Serving I C S R E K T H Response) (k : K) : Option (ConnectionKey × Handshake) :=
  (s.connections k).map fun connection => (connection.key, connection.handshake)

/-- A service was called with the request of the stream. -/
def Called (s : Serving I C S R E K T H Response) (t : T) : Prop :=
  ∃ call ∈ s.calls, call.stream = t

/-- The listen whose service a stream was given. -/
def service (s : Serving I C S R E K T H Response) (t : T) : Option I :=
  (s.streams t).bind Stream.service

end Serving

/-- A stream goes by the names of its connection. -/
structure Stream.Own (listens : I → ListenCall C S R E) (stream : Stream I K H Response)
    (peers : ConnectionKey × Handshake) : Prop where
  service : ∀ i, stream.service = some i → peers.1.names.1 = some (listens i).name
  request : ∀ request, stream.pc = .waiting request →
    ∃ uri, acceptedUri peers.2.localName uri = some request.uri

/-- A call goes by its stream. -/
structure ServiceCall.Own (s : Serving I C S R E K T H Response) (call : ServiceCall I T H)
    (stream : Stream I K H Response) (peers : ConnectionKey × Handshake) : Prop where
  found : s.streams call.stream = some stream
  service : stream.service = some call.service
  known : s.peers stream.connection = some peers
  handshake : call.handshake = peers.2
  request : ∃ uri, acceptedUri peers.2.localName uri = some call.request.uri

/-- What holds between the steps of loops and handlers. -/
structure Served (listens : I → ListenCall C S R E) (s : Serving I C S R E K T H Response) :
    Prop where
  own : ∀ t stream, s.streams t = some stream →
    ∃ peers, s.peers stream.connection = some peers ∧ stream.Own listens peers
  loop : ∀ k connection t, s.connections k = some connection → connection.pc = .serving t →
    ∃ stream, s.streams t = some stream ∧ stream.connection = k
  inLoop : ∀ t stream, s.streams t = some stream → stream.pc.InLoop →
    ∃ connection, s.connections stream.connection = some connection ∧ connection.pc = .serving t
  placed : ∀ t stream, s.streams t = some stream → stream.At (s.Called t) stream.pc
  calls : ∀ call ∈ s.calls, ∃ stream peers, call.Own s stream peers
  once : (s.calls.map ServiceCall.stream).Nodup

theorem at_written {stream : Stream I K H Response} (hs : stream.service ≠ none)
    (hr : stream.Replied called) (r : Reply Response) (result : Except ErrorCode Unit) :
    stream.At called (.finished (writeResult r result)) := by
  cases result with
  | ok => cases r <;> exact ⟨hs, hr⟩
  | error code => cases r <;> cases code <;> exact ⟨hs, hr⟩

section Steps
variable {I C S R E H' K T Response : Type} {H : HttpCrate} {listens : I → ListenCall C S R E}
  {reloads : I → ReloadCall H' C} {s s' : Serving I C S R E K T H Response}
  {stream stream' : Stream I K H Response}

theorem Served.not_called (h : Served listens s) (ht : s.streams t = none) : ¬ s.Called t := by
  rintro ⟨call, hm, rfl⟩
  obtain ⟨stream, _, hown⟩ := h.calls call hm
  exact nomatch ht.symm.trans hown.found

/-- Where a stream is known, what is said of its place is said of it. -/
theorem Served.place (h : Served listens s) (ht : s.streams t = some stream)
    (hp : stream.pc = pc) : stream.At (s.Called t) pc := by
  have := h.placed t stream ht
  rwa [hp] at this

theorem peers_of_connection {connection : Connection T}
    (hk : s.connections k = some connection) :
    s.peers k = some (connection.key, connection.handshake) := by
  rw [Serving.peers, hk]
  rfl

theorem Served.connected (h : Served listens s) (ht : s.streams t = some stream) :
    ∃ connection, s.connections stream.connection = some connection ∧
      stream.Own listens (connection.key, connection.handshake) := by
  obtain ⟨peers, hp, hown⟩ := h.own t stream ht
  obtain ⟨connection, hk, rfl⟩ := Option.map_eq_some_iff.1 hp
  exact ⟨connection, hk, hown⟩

theorem served_start {foreign : Name → Option (Registration I C S R E)} :
    Served listens (unconnected foreign : Serving I C S R E K T H Response) where
  own _ _ := nofun
  loop _ _ _ := nofun
  inLoop _ _ := nofun
  placed _ _ := nofun
  calls _ := nofun
  once := List.nodup_nil

section Updates
variable [DecidableEq K] {connection : Connection T}

theorem setLoop_self (hk : s.connections k = some connection) :
    s.setLoop k connection connection.pc = s := by
  rw [Serving.setLoop, ← hk, Function.update_eq_self]

/-- A loop that goes on leaves all peers as they are. -/
theorem peers_setLoop (hk : s.connections k = some connection) (pc : LoopPc T) :
    (s.setLoop k connection pc).peers = s.peers := by
  funext j
  rw [Serving.peers, Serving.setLoop]
  dsimp only
  by_cases hj : j = k
  · rw [hj, Function.update_self, peers_of_connection hk]
    rfl
  · rw [Function.update_of_ne hj]
    rfl

/-- A loop that begins, or that ends between two streams. -/
theorem Served.setLoop (h : Served listens s) (hpc : ∀ t, pc ≠ .serving t)
    (hk : ∀ old, s.connections k = some old → old.pc = .accepting ∧ old.key = connection.key ∧
      old.handshake = connection.handshake) :
    Served listens (s.setLoop k connection pc) := by
  have hpeers : ∀ j peers, s.peers j = some peers →
      (s.setLoop k connection pc).peers j = some peers := by
    intro j peers hj
    obtain ⟨old, hold, rfl⟩ := Option.map_eq_some_iff.1 hj
    rw [Serving.peers, Serving.setLoop]
    dsimp only
    by_cases hne : j = k
    · subst hne
      obtain ⟨-, hkey, hhandshake⟩ := hk old hold
      rw [Function.update_self, hkey, hhandshake]
      rfl
    · rw [Function.update_of_ne hne, hold]
      rfl
  refine ⟨fun t stream ht => ?_, fun j found t hj hp => ?_, fun t stream ht hin => ?_, h.placed,
    fun call hm => ?_, h.once⟩
  · obtain ⟨peers, hp, hown⟩ := h.own t stream ht
    exact ⟨peers, hpeers _ _ hp, hown⟩
  · rw [Serving.setLoop] at hj
    dsimp only at hj
    by_cases hne : j = k
    · rw [hne, Function.update_self] at hj
      cases hj
      exact absurd hp (hpc t)
    · rw [Function.update_of_ne hne] at hj
      exact h.loop j found t hj hp
  · obtain ⟨found, hfound, hp⟩ := h.inLoop t stream ht hin
    have hne : stream.connection ≠ k := by
      intro he
      rw [he] at hfound
      exact nomatch (hk found hfound).1.symm.trans hp
    exact ⟨found, (Function.update_of_ne hne ..).trans hfound, hp⟩
  · obtain ⟨stream, peers, hown⟩ := h.calls call hm
    exact ⟨stream, peers, hown.found, hown.service, hpeers _ _ hown.known, hown.handshake,
      hown.request⟩

end Updates

variable [DecidableEq K] [DecidableEq T] {connection : Connection T}

/-- The step of a stream, with that of its loop and with the call of its service. -/
def Serving.advance (s : Serving I C S R E K T H Response) (k : K) (connection : Connection T)
    (pc : LoopPc T) (t : T) (stream : Stream I K H Response) (call : Option (ServiceCall I T H)) :
    Serving I C S R E K T H Response :=
  { (s.setLoop k connection pc).setStream t stream with calls := call.toList ++ s.calls }

/-- What a step of a stream keeps to. -/
structure Advances (listens : I → ListenCall C S R E) (s : Serving I C S R E K T H Response)
    (k : K) (connection : Connection T) (pc : LoopPc T) (t : T) (stream : Stream I K H Response)
    (call : Option (ServiceCall I T H)) : Prop where
  onto : stream.connection = k
  before : ∀ old, s.streams t = some old → old.connection = k ∧
    ∀ i, old.service = some i → stream.service = some i
  own : stream.Own listens (connection.key, connection.handshake)
  placed : stream.At ((s.advance k connection pc t stream call).Called t) stream.pc
  enters : stream.pc.InLoop → pc = .serving t
  serves : ∀ t', pc = .serving t' → t' = t ∨ connection.pc = .serving t'
  leaves : ∀ t', connection.pc = .serving t' → t' = t ∨ pc = .serving t'
  called : ∀ c, call = some c → c.stream = t ∧ stream.service = some c.service ∧
    c.handshake = connection.handshake ∧ ¬ s.Called t ∧
    ∃ uri, acceptedUri connection.handshake.localName uri = some c.request.uri

theorem called_advance_of_ne {call : Option (ServiceCall I T H)}
    (hcall : ∀ c, call = some c → c.stream = t) (hne : t' ≠ t) :
    (s.advance k connection pc t stream call).Called t' ↔ s.Called t' := by
  constructor
  · rintro ⟨c, hm, rfl⟩
    obtain hm | hm := List.mem_append.1 hm
    · exact absurd (hcall c (Option.mem_toList.1 hm)) hne
    · exact ⟨c, hm, rfl⟩
  · rintro ⟨c, hm, rfl⟩
    exact ⟨c, List.mem_append_right _ hm, rfl⟩

theorem Served.advance (h : Served listens s) (hk : s.connections k = some connection)
    {call : Option (ServiceCall I T H)}
    (ha : Advances listens s k connection pc t stream call) :
    Served listens (s.advance k connection pc t stream call) := by
  have hpeers : (s.advance k connection pc t stream call).peers = s.peers :=
    peers_setLoop (s := s) hk pc
  have hpeer : s.peers stream.connection = some (connection.key, connection.handshake) := by
    rw [ha.onto]
    exact peers_of_connection hk
  have hself : (s.advance k connection pc t stream call).streams t = some stream :=
    Function.update_self ..
  have hother : ∀ t', t' ≠ t →
      (s.advance k connection pc t stream call).streams t' = s.streams t' := fun t' hne =>
    Function.update_of_ne hne ..
  have hloop : (s.advance k connection pc t stream call).connections k =
      some { connection with pc := pc } := Function.update_self ..
  have hloops : ∀ j, j ≠ k →
      (s.advance k connection pc t stream call).connections j = s.connections j := fun j hne =>
    Function.update_of_ne hne ..
  -- A stream of the connection is there after the step, under the same connection.
  have hkeep : ∀ t' old, s.streams t' = some old → ∃ new,
      (s.advance k connection pc t stream call).streams t' = some new ∧
        new.connection = old.connection ∧ ∀ i, old.service = some i → new.service = some i := by
    intro t' old hold
    by_cases hne : t' = t
    · subst hne
      exact ⟨stream, hself, ha.onto.trans (ha.before old hold).1.symm, (ha.before old hold).2⟩
    · exact ⟨old, (hother t' hne).trans hold, rfl, fun _ => id⟩
  refine ⟨fun t' found hfound => ?_, fun j found t' hfound hpc => ?_,
    fun t' found hfound hin => ?_, fun t' found hfound => ?_, fun c hm => ?_, ?_⟩
  · rw [hpeers]
    by_cases hne : t' = t
    · rw [hne, hself] at hfound
      cases hfound
      exact ⟨_, hpeer, ha.own⟩
    · exact h.own t' found ((hother t' hne).symm.trans hfound)
  · by_cases hj : j = k
    · rw [hj, hloop] at hfound
      cases hfound
      obtain rfl | hp := ha.serves t' hpc
      · exact ⟨stream, hself, ha.onto.trans hj.symm⟩
      · obtain ⟨old, hold, hc⟩ := h.loop k connection t' hk hp
        obtain ⟨new, hnew, hnc, -⟩ := hkeep t' old hold
        exact ⟨new, hnew, (hnc.trans hc).trans hj.symm⟩
    · obtain ⟨old, hold, hc⟩ := h.loop j found t' ((hloops j hj).symm.trans hfound) hpc
      obtain ⟨new, hnew, hnc, -⟩ := hkeep t' old hold
      exact ⟨new, hnew, hnc.trans hc⟩
  · by_cases hne : t' = t
    · rw [hne, hself] at hfound
      cases hfound
      rw [ha.onto, hne]
      exact ⟨_, hloop, ha.enters hin⟩
    · obtain ⟨c, hc, hp⟩ := h.inLoop t' found ((hother t' hne).symm.trans hfound) hin
      by_cases hj : found.connection = k
      · rw [hj, hk] at hc
        cases hc
        rw [hj]
        exact ⟨_, hloop, (ha.leaves t' hp).resolve_left hne⟩
      · exact ⟨c, (hloops _ hj).trans hc, hp⟩
  · by_cases hne : t' = t
    · rw [hne, hself] at hfound
      cases hfound
      rw [hne]
      exact ha.placed
    · rw [called_advance_of_ne (fun c hc => (ha.called c hc).1) hne]
      exact h.placed t' found ((hother t' hne).symm.trans hfound)
  · obtain hm | hm := List.mem_append.1 hm
    · obtain ⟨ht, hs, hh, -, huri⟩ := ha.called c (Option.mem_toList.1 hm)
      exact ⟨stream, _, ht ▸ hself, hs, hpeers ▸ hpeer, hh, huri⟩
    · obtain ⟨old, peers, hown⟩ := h.calls c hm
      obtain ⟨new, hnew, hnc, hns⟩ := hkeep _ old hown.found
      exact ⟨new, peers, hnew, hns _ hown.service, by rw [hnc, hpeers, hown.known], hown.handshake,
        hown.request⟩
  · cases call with
    | none => exact h.once
    | some c =>
      obtain ⟨ht, -, -, hn, -⟩ := ha.called c rfl
      refine List.nodup_cons.2 ⟨fun hm => hn ?_, h.once⟩
      obtain ⟨c', hc', he⟩ := List.mem_map.1 hm
      exact ⟨c', hc', he.trans ht⟩

/-- A step of a handler other than the call of the service. -/
theorem Served.handle (h : Served listens s) (ht : s.streams t = some stream)
    (hc : stream'.connection = stream.connection) (hs : stream'.service = stream.service)
    (hin : ¬ stream'.pc.InLoop)
    (hreq : ∀ request, stream'.pc = .waiting request → ∃ connection uri,
      s.connections stream.connection = some connection ∧
      acceptedUri connection.handshake.localName uri = some request.uri)
    (hplaced : stream'.At (s.Called t) stream'.pc) : Served listens (s.setStream t stream') := by
  obtain ⟨connection, hk, hown⟩ := h.connected ht
  have hset : s.setStream t stream' =
      s.advance stream.connection connection connection.pc t stream' none := by
    rw [Serving.advance, setLoop_self hk]
    rfl
  rw [hset]
  refine h.advance hk ⟨hc, fun old hold => ?_, ⟨fun i hi => hown.service i (hs ▸ hi),
    fun request hpc => ?_⟩, hplaced, fun hi => absurd hi hin, fun _ => .inr, fun _ => .inr,
    nofun⟩
  · rw [ht] at hold
    cases hold
    exact ⟨rfl, fun i hi => hs.trans hi⟩
  · obtain ⟨connection', uri, hk', huri⟩ := hreq request hpc
    rw [hk] at hk'
    cases hk'
    exact ⟨uri, huri⟩

/-- A step of the loop with the stream it has accepted. -/
theorem Served.serve (h : Served listens s) (hk : s.connections k = some connection)
    (hp : connection.pc = .serving t) (ht : s.streams t = some stream)
    (hc : stream'.connection = stream.connection)
    (hs : ∀ i, stream.service = some i → stream'.service = some i)
    (hown : ∀ i, stream'.service = some i →
      stream.service = some i ∨ connection.key.names.1 = some (listens i).name)
    (hpc : pc = .serving t ∨ pc = .accepting ∧ ¬ stream'.pc.InLoop)
    (hreq : ∀ request, stream'.pc ≠ .waiting request)
    (hplaced : stream'.At (s.Called t) stream'.pc) :
    Served listens ((s.setLoop k connection pc).setStream t stream') := by
  have hk' : stream.connection = k := by
    obtain ⟨found, hfound, hc'⟩ := h.loop k connection t hk hp
    rw [ht] at hfound
    cases hfound
    exact hc'
  have hown' : stream.Own listens (connection.key, connection.handshake) := by
    obtain ⟨found, hfound, hown'⟩ := h.connected ht
    rw [hk', hk] at hfound
    cases hfound
    exact hown'
  have ha : Advances listens s k connection pc t stream' none := by
    refine ⟨hc.trans hk', fun old hold => ?_,
      ⟨fun i hi => (hown i hi).elim (hown'.service i) id,
        fun request hw => absurd hw (hreq request)⟩, hplaced, fun hi => ?_, fun t' ht' => ?_, fun t' ht' => .inl ?_, nofun⟩
    · rw [ht] at hold
      cases hold
      exact ⟨hk', hs⟩
    · exact hpc.elim id fun hn => absurd hi hn.2
    · obtain rfl | ⟨rfl, -⟩ := hpc
      · cases ht'
        exact .inl rfl
      · cases ht'
    · rw [hp] at ht'
      cases ht'
      rfl
  exact h.advance hk ha

/-- A step of the loop that leaves the stream in the loop. -/
theorem Served.inspect (h : Served listens s) (hk : s.connections k = some connection)
    (hp : connection.pc = .serving t) (ht : s.streams t = some stream)
    (hc : stream'.connection = stream.connection)
    (hs : ∀ i, stream.service = some i → stream'.service = some i)
    (hown : ∀ i, stream'.service = some i →
      stream.service = some i ∨ connection.key.names.1 = some (listens i).name)
    (hreq : ∀ request, stream'.pc ≠ .waiting request)
    (hplaced : stream'.At (s.Called t) stream'.pc) : Served listens (s.setStream t stream') := by
  have hset := h.serve hk hp ht hc hs hown (.inl hp) hreq hplaced
  rwa [setLoop_self hk] at hset

/-- The call of the service that the stream was given. -/
theorem Served.call (h : Served listens s) (ht : s.streams t = some stream)
    (hp : stream.pc = .waiting request) (hk : s.connections stream.connection = some connection)
    (hi : stream.service = some i) :
    Served listens { s.setStream t (stream.go (.calling request)) with
      calls := ⟨i, t, connection.handshake, request⟩ :: s.calls } := by
  let call : ServiceCall I T H := ⟨i, t, connection.handshake, request⟩
  obtain ⟨hs, hsignals, hcalled⟩ := h.place ht hp
  have hown : stream.Own listens (connection.key, connection.handshake) := by
    obtain ⟨found, hfound, hown⟩ := h.connected ht
    rw [hk] at hfound
    cases hfound
    exact hown
  have ha : Advances listens s stream.connection connection connection.pc t
      (stream.go (.calling request)) (some call) := by
    refine ⟨rfl, fun old hold => ?_, ⟨hown.service, nofun⟩, ⟨hs, hsignals, call, ?_, rfl⟩,
      False.elim, fun _ => .inr, fun _ => .inr, fun c hc => ?_⟩
    · rw [ht] at hold
      cases hold
      exact ⟨rfl, fun _ => id⟩
    · exact List.mem_cons_self
    · cases hc
      exact ⟨rfl, hi, rfl, hcalled, hown.request request hp⟩
  have hadvance := h.advance hk ha
  rwa [Serving.advance, setLoop_self hk] at hadvance

variable [DecidableEq I] [DecidableEq H']

/-- What the loop finds in the listeners is listed under the name of its connection. -/
theorem served_step (hl : Consistent listens reloads foreign s.listeners) (h : Served listens s)
    (hs : ServeStep listens reloads s a s') : Served listens s' := by
  cases hs with
  | call hs =>
    refine ⟨h.own, h.loop, h.inLoop, h.placed, fun call hm => ?_, h.once⟩
    obtain ⟨stream, peers, hown⟩ := h.calls call hm
    exact ⟨stream, peers, hown.found, hown.service, hown.known, hown.handshake, hown.request⟩
  | incoming handshake hi hk | connect localName remote handshake hk =>
    exact h.setLoop nofun fun old hold => nomatch hk.symm.trans hold
  | acceptFailed hk hp =>
    refine h.setLoop nofun fun old hold => ?_
    rw [hk] at hold
    cases hold
    exact ⟨hp, rfl, rfl⟩
  | accept t hk hp ht =>
    rename_i connection k
    have ha : Advances listens s k connection (.serving t) t ⟨k, none, .accepted, []⟩ none := by
      refine ⟨rfl, fun old hold => (nomatch ht.symm.trans hold), ⟨nofun, nofun⟩,
        ⟨rfl, rfl, h.not_called ht⟩, fun _ => rfl, fun t' ht' => ?_,
        fun t' ht' => (nomatch hp.symm.trans ht'), nofun⟩
      cases ht'
      exact .inl rfl
    exact h.advance hk ha
  | anonymous hk hp hn ht ha | lookupFailed hk hp hn hfree ht ha hi =>
    obtain ⟨hs, hsignals, hcalled⟩ := h.place ht ha
    exact h.inspect hk hp ht rfl (fun _ => id) (fun _ => .inl) nofun ⟨hs, hsignals, hcalled⟩
  | lookup hk hp hn hfree ht ha hi =>
    obtain ⟨hs, hsignals, hcalled⟩ := h.place ht ha
    refine h.inspect hk hp ht rfl (fun i hi => nomatch hs.symm.trans hi) (fun i' hi' => .inr ?_)
      nofun ⟨nofun, hsignals, hcalled⟩
    cases hi'
    rw [hn, (hl.listeners _ _ hi).1]
  | reject hk hp ht ha =>
    obtain ⟨hs, hsignals, hcalled⟩ := h.place ht ha
    exact h.serve hk hp ht rfl (fun _ => id) (fun _ => .inl) (.inr ⟨rfl, id⟩) nofun
      ⟨hs, congrArg (· ++ rejection) hsignals, hcalled⟩
  | spawn hk hp ht ha =>
    have hplace := h.place ht ha
    exact h.serve hk hp ht rfl (fun _ => id) (fun _ => .inl) (.inr ⟨rfl, id⟩) nofun hplace
  | readFailed ht hp =>
    obtain ⟨hs, hsignals, -⟩ := h.place ht hp
    exact h.handle ht rfl rfl id nofun ⟨hs, congrArg (· ++ [_]) hsignals⟩
  | misdirected request ht hp hk hu =>
    obtain ⟨hs, hsignals, hcalled⟩ := h.place ht hp
    exact h.handle ht rfl rfl id nofun ⟨hs, congrArg (· ++ [_]) hsignals,
      iff_of_false hcalled fun hn => hn rfl⟩
  | read request ht hp hk hu =>
    have hplace := h.place ht hp
    refine h.handle ht rfl rfl id (fun request' hw => ?_) hplace
    cases hw
    exact ⟨_, _, hk, hu⟩
  | notReady ht hp =>
    obtain ⟨hs, hsignals, -⟩ := h.place ht hp
    exact h.handle ht rfl rfl id nofun ⟨hs, congrArg (· ++ [_]) hsignals⟩
  | ready ht hp hk hi => exact h.call ht hp hk hi
  | callFailed ht hp =>
    obtain ⟨hs, hsignals, -⟩ := h.place ht hp
    exact h.handle ht rfl rfl id nofun ⟨hs, congrArg (· ++ [_]) hsignals⟩
  | answer r ht hp =>
    obtain ⟨hs, hsignals, hcalled⟩ := h.place ht hp
    exact h.handle ht rfl rfl id nofun ⟨hs, congrArg (· ++ [_]) hsignals,
      iff_of_true hcalled nofun⟩
  | panicReady ht hp | panicCall ht hp =>
    obtain ⟨hs, hsignals, -⟩ := h.place ht hp
    exact h.handle ht rfl rfl id nofun ⟨hs, .inl (congrArg (· ++ [_]) hsignals)⟩
  | panicWrite ht hp =>
    obtain ⟨hs, hreplied⟩ := h.place ht hp
    exact h.handle ht rfl rfl id nofun ⟨hs, .inr ⟨_, hreplied⟩⟩
  | written result ht hp =>
    obtain ⟨hs, hreplied⟩ := h.place ht hp
    exact h.handle ht rfl rfl id nofun (at_written hs ⟨_, hreplied⟩ _ result)

/-- What a step of the loops and the handlers leaves to the listeners. -/
theorem listeners_step (hs : ServeStep listens reloads s a s') :
    s'.listeners = s.listeners ∨ ∃ i, ListenerStep listens reloads s.listeners i s'.listeners := by
  cases hs with
  | call hs => exact .inr ⟨_, hs⟩
  | _ => exact .inl rfl

/-- The loop looks for the service of the stream, under the name of its connection. -/
def LooksUp (s : Serving I C S R E K T H Response) (t : T)
    (stream stream' : Stream I K H Response) : Prop :=
  stream.pc = .accepted ∧ ∃ k connection, s.connections k = some connection ∧
    connection.pc = .serving t ∧
    ((connection.key.names.1 = none ∧ stream' = stream.go .unlisted) ∨
      ∃ name, connection.key.names.1 = some name ∧ s.listeners.lock = none ∧
        ((s.listeners.listeners name = none ∧ stream' = stream.go .unlisted) ∨
          ∃ i, s.listeners.listeners name = some i ∧
            stream' = { stream with service := some i, pc := .listed }))

/-- All that a step does to the streams. -/
theorem streams_step (hs : ServeStep listens reloads s a s') :
    s'.streams = s.streams ∨ ∃ t stream', s'.streams = Function.update s.streams t (some stream') ∧
      ((s.streams t = none ∧ stream'.service = none ∧ stream'.pc = .accepted) ∨
        ∃ stream, s.streams t = some stream ∧
          ((stream'.service = stream.service ∧ stream'.pc ≠ .unlisted) ∨
            LooksUp s t stream stream')) := by
  cases hs with
  | call | incoming | connect | acceptFailed => exact .inl rfl
  | accept t hk hp ht => exact .inr ⟨_, _, rfl, .inl ⟨ht, rfl, rfl⟩⟩
  | anonymous hk hp hn ht ha =>
    exact .inr ⟨_, _, rfl, .inr ⟨_, ht, .inr ⟨ha, _, _, hk, hp, .inl ⟨hn, rfl⟩⟩⟩⟩
  | lookup hk hp hn hl ht ha hi =>
    exact .inr ⟨_, _, rfl, .inr ⟨_, ht, .inr ⟨ha, _, _, hk, hp,
      .inr ⟨_, hn, hl, .inr ⟨_, hi, rfl⟩⟩⟩⟩⟩
  | lookupFailed hk hp hn hl ht ha hi =>
    exact .inr ⟨_, _, rfl, .inr ⟨_, ht, .inr ⟨ha, _, _, hk, hp,
      .inr ⟨_, hn, hl, .inl ⟨hi, rfl⟩⟩⟩⟩⟩
  | reject hk hp ht ha | spawn hk hp ht ha | readFailed ht hp | misdirected request ht hp hk hu
    | read request ht hp hk hu | notReady ht hp | ready ht hp hk hi | callFailed ht hp
    | answer r ht hp | panicReady ht hp | panicCall ht hp | panicWrite ht hp
    | written result ht hp =>
    exact .inr ⟨_, _, rfl, .inr ⟨_, ht, .inl ⟨rfl, nofun⟩⟩⟩

/-- A step of one stream. -/
theorem stream_step (hs : ServeStep listens reloads s a s') (t : T) :
    s'.streams t = s.streams t ∨ ∃ stream', s'.streams t = some stream' ∧
      ((s.streams t = none ∧ stream'.service = none ∧ stream'.pc = .accepted) ∨
        ∃ stream, s.streams t = some stream ∧
          ((stream'.service = stream.service ∧ stream'.pc ≠ .unlisted) ∨
            LooksUp s t stream stream')) := by
  obtain he | ⟨t', stream', he, hcases⟩ := streams_step hs
  · exact .inl (congrFun he t)
  · by_cases hne : t = t'
    · rw [hne]
      exact .inr ⟨stream', (congrFun he t').trans (Function.update_self ..), hcases⟩
    · exact .inl ((congrFun he t).trans (Function.update_of_ne hne ..))

/-- A stream is only given a service by the look at the listeners. -/
theorem service_step (hs : ServeStep listens reloads s a s') (h : s'.service t = some i) :
    s.service t = some i ∨
      s.listeners.lock = none ∧ ∃ name, s.listeners.listeners name = some i := by
  rw [Serving.service] at h
  obtain he | ⟨stream', he, ⟨-, hs, -⟩ | ⟨stream, ht, ⟨hs, -⟩ | ⟨-, _, _, -, -, hlook⟩⟩⟩ :=
    stream_step hs t
  · rw [he] at h
    exact .inl h
  · rw [he] at h
    exact nomatch hs.symm.trans h
  · rw [he] at h
    left
    rw [Serving.service, ht]
    exact hs.symm.trans h
  · rw [he] at h
    obtain ⟨-, rfl⟩ | ⟨name, -, hl, ⟨-, rfl⟩ | ⟨i', hi', rfl⟩⟩ := hlook
    · left
      rw [Serving.service, ht]
      exact h
    · left
      rw [Serving.service, ht]
      exact h
    · cases h
      exact .inr ⟨hl, name, hi'⟩

end Steps

end Dhttp.Network
