import Dhttp.Network.ConnectionRuns

namespace Dhttp.Network
open Dhttp.Lib Dhttp.Home Dhttp.Client
set_option autoImplicit true

/-- What is done to a stream, all in all: nothing yet, or one of three things. -/
structure Stream.Outcome (stream : Stream I K H Response) (called : Prop) : Prop where
  signals : stream.signals = [] ∨ stream.signals = rejection ∨
    stream.signals = [.cancel .requestCancelled] ∨ ∃ r, stream.signals = [.reply r]
  ended : stream.pc.Ended → stream.signals ≠ []
  refused : stream.signals = rejection ↔ stream.service = none ∧ stream.pc.Ended
  unserved : stream.service = none → ¬ called
  replied : ∀ r, stream.signals = [.reply r] → (called ↔ r ≠ .misdirected)
  succeeded : stream.pc = .finished (.ok ()) → ∃ r, stream.signals = [.reply r]

/-- Every stream is served, if at all, by the service that its connection's name has, and with its
connection's handshake. -/
structure StreamsServed (listens : I → ListenCall C S R E)
    (s : Serving I C S R E K T H Response) : Prop where
  named : ∀ t stream i, s.streams t = some stream → stream.service = some i →
    ∃ connection, s.connections stream.connection = some connection ∧
      connection.key.names.1 = some (listens i).name
  calls : ∀ call ∈ s.calls, ∃ stream connection, s.streams call.stream = some stream ∧
    stream.service = some call.service ∧
    s.connections stream.connection = some connection ∧ call.handshake = connection.handshake ∧
    ∃ uri, acceptedUri connection.handshake.localName uri = some call.request.uri
  once : (s.calls.map ServiceCall.stream).Nodup
  outcome : ∀ t stream, s.streams t = some stream → stream.Outcome (s.Called t)

/-- A stream that is given a service has that of the only listen there is for its name; one that is
refused finds none. -/
structure LookedUp (listens : I → ListenCall C S R E) (s s' : Serving I C S R E K T H Response) :
    Prop where
  found : ∀ t i, s.service t ≠ some i → s'.service t = some i → (s.listeners.pc i).Exists ∧
    ∀ j, (s.listeners.pc j).Exists → (listens j).name = (listens i).name → j = i
  refused : ∀ t stream stream' connection name, s.streams t = some stream →
    stream.pc = .accepted → s'.streams t = some stream' → stream'.pc = .unlisted →
    s.connections stream.connection = some connection → connection.key.names.1 = some name →
    ∀ i, (listens i).name = name → ¬ (s.listeners.pc i).Exists

section Guarantees
variable {I C S R E H' K T Response : Type} {H : HttpCrate} {listens : I → ListenCall C S R E}
  {reloads : I → ReloadCall H' C} {s s' : Serving I C S R E K T H Response}
  {stream stream' : Stream I K H Response}

theorem outcome_open (hs : stream.signals = []) (hp : ¬ stream.pc.Ended)
    (hc : stream.service = none → ¬ called) : stream.Outcome called where
  signals := .inl hs
  ended he := absurd he hp
  refused := iff_of_false (fun hr => nomatch hs.symm.trans hr) fun he => hp he.2
  unserved := hc
  replied _ hr := nomatch hs.symm.trans hr
  succeeded he := absurd (by rw [he]; trivial) hp

theorem outcome_cancelled (hv : stream.service ≠ none)
    (hs : stream.signals = [.cancel .requestCancelled])
    (hp : stream.pc ≠ .finished (.ok ())) : stream.Outcome called where
  signals := .inr (.inr (.inl hs))
  ended _ he := nomatch hs.symm.trans he
  refused := iff_of_false (fun hr => nomatch hs.symm.trans hr) fun he => hv he.1
  unserved he := absurd he hv
  replied _ hr := nomatch hs.symm.trans hr
  succeeded he := absurd he hp

theorem outcome_replied (hv : stream.service ≠ none) (hr : stream.Replied called) :
    stream.Outcome called where
  signals := .inr (.inr (.inr (hr.imp fun _ => And.left)))
  ended _ he := by
    obtain ⟨r, hs, -⟩ := hr
    exact nomatch hs.symm.trans he
  refused := iff_of_false
    (fun he => by
      obtain ⟨r, hs, -⟩ := hr
      exact nomatch hs.symm.trans he)
    fun he => hv he.1
  unserved he := absurd he hv
  replied r' he := by
    obtain ⟨r, hs, hcalled⟩ := hr
    rw [hs] at he
    cases he
    exact hcalled
  succeeded _ := hr.imp fun _ => And.left

theorem outcome_rejected (hv : stream.service = none) (hs : stream.signals = rejection)
    (hc : ¬ called) (hp : stream.pc = .rejected) : stream.Outcome called where
  signals := .inr (.inl hs)
  ended _ he := nomatch hs.symm.trans he
  refused := iff_of_true hs ⟨hv, by rw [hp]; trivial⟩
  unserved _ := hc
  replied _ hr := nomatch hs.symm.trans hr
  succeeded he := nomatch hp.symm.trans he

theorem outcome_of_at (h : stream.At called stream.pc) : stream.Outcome called := by
  generalize hp : stream.pc = pc at h
  cases pc with
  | accepted | unlisted =>
    obtain ⟨-, hs, hcalled⟩ := h
    exact outcome_open hs (by rw [hp]; exact id) fun _ => hcalled
  | rejected =>
    obtain ⟨hv, hs, hcalled⟩ := h
    exact outcome_rejected hv hs hcalled hp
  | listed | reading | waiting =>
    obtain ⟨-, hs, hcalled⟩ := h
    exact outcome_open hs (by rw [hp]; exact id) fun _ => hcalled
  | calling =>
    obtain ⟨hv, hs, -⟩ := h
    exact outcome_open hs (by rw [hp]; exact id) fun he => absurd he hv
  | writing r =>
    obtain ⟨hv, hs, hcalled⟩ := h
    exact outcome_replied hv ⟨r, hs, hcalled⟩
  | finished result =>
    match result, h with
    | .ok (), ⟨hv, hr⟩ | .error (.write _), ⟨hv, hr⟩ => exact outcome_replied hv hr
    | .error .read, ⟨hv, hs⟩ | .error .service, ⟨hv, hs⟩ =>
      exact outcome_cancelled hv hs (by rw [hp]; nofun)
  | panicked =>
    obtain ⟨hv, hs | hr⟩ := h
    · exact outcome_cancelled hv hs (by rw [hp]; nofun)
    · exact outcome_replied hv hr

theorem Served.streamsServed (h : Served listens s) : StreamsServed listens s where
  named t stream i ht hi := by
    obtain ⟨connection, hk, hown⟩ := h.connected ht
    exact ⟨connection, hk, hown.service i hi⟩
  calls call hm := by
    obtain ⟨stream, peers, hown⟩ := h.calls call hm
    obtain ⟨connection, hk, rfl⟩ := Option.map_eq_some_iff.1 hown.known
    exact ⟨stream, connection, hown.found, hown.service, hk, hown.handshake, hown.request⟩
  once := h.once
  outcome t stream ht := outcome_of_at (h.placed t stream ht)

variable [DecidableEq I] [DecidableEq H'] [DecidableEq K] [DecidableEq T]
  {foreign : Name → Option (Registration I C S R E)}

theorem lookedUp (hl : Consistent listens reloads foreign s.listeners) (h : Served listens s)
    (hs : ServeStep listens reloads s a s') : LookedUp listens s s' where
  found t i hn hi := by
    obtain hold | ⟨hlock, name, hname⟩ := service_step hs hi
    · exact absurd hold hn
    · have hset := hl.settled hlock
      obtain ⟨hserved, hserves⟩ := hl.listeners name i hname
      obtain ⟨j, hj, hexists⟩ := (hset.listed name).1 (by rw [hname]; nofun)
      have hij : j = i := by
        have hown := (hset.own j hexists).1
        rw [hj, hname] at hown
        exact (Option.some.inj hown).symm
      rw [hij] at hexists
      exact ⟨hexists, fun k hk hkname => hset.unique k i hk hexists hkname⟩
  refused t stream stream' connection name ht hp ht' hp' hk hn i hi hexists := by
    obtain he | ⟨found, hfound, ⟨hnone, -⟩ | ⟨old, hold, ⟨-, hpc⟩ | ⟨-, k, c, hc, hcp, hlook⟩⟩⟩ :=
      stream_step hs t
    · rw [ht', ht] at he
      cases he
      exact nomatch hp.symm.trans hp'
    · exact nomatch ht.symm.trans hnone
    · rw [ht'] at hfound
      cases hfound
      exact hpc hp'
    · obtain ⟨served, hserved, hat⟩ := h.loop k c t hc hcp
      rw [ht] at hserved hold
      cases hserved
      cases hold
      rw [hat, hc] at hk
      cases hk
      obtain ⟨hnone, -⟩ | ⟨name', hname, hlock, hcases⟩ := hlook
      · exact nomatch hn.symm.trans hnone
      · rw [hn] at hname
        cases hname
        have hown := ((hl.settled hlock).own i hexists).1
        obtain ⟨hnone, -⟩ | ⟨i', -, rfl⟩ := hcases
        · rw [hi, hnone] at hown
          cases hown
        · rw [ht'] at hfound
          cases hfound
          cases hp'

/-- The loop goes on with the stream it has accepted as soon as nobody has the listeners. -/
theorem Served.goes_on (h : Served listens s) (ht : s.streams t = some stream)
    (hin : stream.pc.InLoop) (hl : s.listeners.lock = none) :
    ∃ s' stream', ServeStep listens reloads s (.connection stream.connection) s' ∧
      s'.streams t = some stream' ∧ stream'.pc ≠ stream.pc := by
  obtain ⟨connection, hk, hp⟩ := h.inLoop t stream ht hin
  have hself : ∀ stream' : Stream I K H Response,
      Function.update s.streams t (some stream') t = some stream' := fun _ =>
    Function.update_self ..
  generalize hpc : stream.pc = pc at hin
  cases pc with
  | accepted =>
    cases hn : connection.key.names.1 with
    | none => exact ⟨_, _, .anonymous hk hp hn ht hpc, hself _, nofun⟩
    | some name =>
      cases hi : s.listeners.listeners name with
      | none => exact ⟨_, _, .lookupFailed hk hp hn hl ht hpc hi, hself _, nofun⟩
      | some i => exact ⟨_, _, .lookup hk hp hn hl ht hpc hi, hself _, nofun⟩
  | unlisted => exact ⟨_, _, .reject hk hp ht hpc, hself _, nofun⟩
  | listed => exact ⟨_, _, .spawn hk hp ht hpc, hself _, nofun⟩
  | rejected | reading | waiting | calling | writing | finished | panicked => exact hin.elim

omit [DecidableEq K] [DecidableEq T] in
theorem gone_step {s s' : Listeners I C S R E} (h : (s.pc i).Gone)
    (hs : ListenerStep listens reloads s j s') : (s'.pc i).Gone := by
  by_cases hi : i = j
  · subst hi
    cases hs with
    | unregister | unlockDrop =>
      dsimp only [Listeners.go, Listeners.release]
      rw [Function.update_self]
      trivial
    | configure hp | configureFailed hp | lock hp | alreadyListening hp | unlisted hp
      | nameInUse hp | unused hp | register hp | registerFailed hp | insert hp | unlock hp
      | drop hp | lockDrop hp | remove hp | reload hp | reloadRefused hp | lockReload hp
      | notListening hp | isListening hp | disappeared hp | get hp | build hp | buildFailed hp
      | replace hp | replaceFailed hp | unlockReload hp | fail hp =>
      rw [hp] at h
      exact h.elim
  · rw [step_frame hs hi]
    exact h

theorem consistent_serve (hl : Consistent listens reloads foreign s.listeners)
    (hs : ServeStep listens reloads s a s') : Consistent listens reloads foreign s'.listeners := by
  obtain he | ⟨i, hstep⟩ := listeners_step hs
  · rw [he]
    exact hl
  · exact consistent_step hl hstep

/-- A listen whose entry is removed is given no stream any more. -/
theorem gone_serves_no_more (hl : Consistent listens reloads foreign s.listeners)
    (hg : (s.listeners.pc i).Gone)
    (h : Reaches (ServeStep listens reloads) (fun _ _ => True) s s') (t : T)
    (ht : s'.service t = some i) : s.service t = some i := by
  have hinv : Consistent listens reloads foreign s'.listeners ∧ (s'.listeners.pc i).Gone ∧
      ∀ t, s'.service t = some i → s.service t = some i := by
    refine @Reaches.invariant _ _ _ _ _ _ (fun u => Consistent listens reloads foreign u.listeners ∧
      (u.listeners.pc i).Gone ∧ ∀ t, u.service t = some i → s.service t = some i) h
      ⟨hl, hg, fun _ => id⟩ fun u a u' hu _ hstep => ?_
    obtain ⟨hlu, hgu, hsu⟩ := hu
    refine ⟨consistent_serve hlu hstep, ?_, fun t' ht' => ?_⟩
    · obtain he | ⟨j, hj⟩ := listeners_step hstep
      · rw [he]
        exact hgu
      · exact gone_step hgu hj
    · obtain hold | ⟨hlock, name, hname⟩ := service_step hstep ht'
      · exact hsu t' hold
      · obtain ⟨-, hserves⟩ := hlu.listeners name i hname
        have hx := hlu.exclusive
        rw [hlock] at hx
        exact absurd (hserves.exists (hx.not_holds i)) hgu.not_exists
  exact hinv.2.2 t ht

/-- The streams of all connections in any interleaving of their loops, the handlers, and the
listens, the drops of their futures and the reloads of all names. -/
theorem streams_served
    (h : Reaches (ServeStep listens reloads) (fun _ _ => True) (unconnected foreign) s) :
    StreamsServed listens s ∧
      (∀ a s', ServeStep listens reloads s a s' → LookedUp listens s s') ∧
      (∀ t stream, s.streams t = some stream → stream.pc.InLoop → s.listeners.lock = none →
        ∃ s' stream', ServeStep listens reloads s (.connection stream.connection) s' ∧
          s'.streams t = some stream' ∧ stream'.pc ≠ stream.pc) ∧
      ∀ i, (s.listeners.pc i).Gone →
        ∀ s', Reaches (ServeStep listens reloads) (fun _ _ => True) s s' →
          ∀ t, s'.service t = some i → s.service t = some i := by
  have hs : Consistent listens reloads foreign s.listeners ∧ Served listens s :=
    @Reaches.invariant _ _ _ _ _ _
      (fun u => Consistent listens reloads foreign u.listeners ∧ Served listens u) h
      ⟨consistent_start, served_start⟩ fun _ _ _ hu _ hstep =>
        ⟨consistent_serve hu.1 hstep, served_step hu.1 hu.2 hstep⟩
  exact ⟨hs.2.streamsServed, fun _ _ => lookedUp hs.1 hs.2, fun _ _ => hs.2.goes_on,
    fun _ hg _ => gone_serves_no_more hs.1 hg⟩

end Guarantees

/-- A request to `b.dhttp.net` on a connection of that name, answered. -/
theorem streams_served_answered :
    let name := ['b'] ++ dhttpSuffix
    let request : Request plainCrate := ⟨['G', 'E', 'T'], rootUri (['b'] ++ dhttpSuffix) rfl⟩
    let listens : Bool → ListenCall Unit Unit Unit Unit := fun _ => ⟨name, (), (), fun _ => ()⟩
    let reloads : Bool → ReloadCall Unit Unit := fun _ => ⟨name, (), .error .library⟩
    ∃ s : Serving Bool Unit Unit Unit Unit Unit Unit plainCrate Unit,
      Reaches (ServeStep listens reloads) (fun _ _ => True) (unconnected fun _ => none) s ∧
        s.calls = [⟨true, (), ⟨some name, none⟩, request⟩] ∧ StreamsServed listens s := by
  intro name request listens reloads
  have hu : acceptedUri (some name) request.uri = some request.uri := rfl
  have hrun : ∃ s : Serving Bool Unit Unit Unit Unit Unit Unit plainCrate Unit,
      Reaches (ServeStep listens reloads) (fun _ _ => True) (unconnected fun _ => none) s ∧
        s.calls = [⟨true, (), ⟨some name, none⟩, request⟩] :=
    ⟨_, Reaches.refl.tail (by trivial) (.call (.configure (i := true) rfl))
      |>.tail (by trivial) (.call (.lock (i := true) rfl rfl))
      |>.tail (by trivial) (.call (.unlisted (i := true) rfl rfl))
      |>.tail (by trivial) (.call (.unused (i := true) rfl rfl))
      |>.tail (by trivial) (.call (.register (i := true) rfl))
      |>.tail (by trivial) (.call (.insert (i := true) rfl))
      |>.tail (by trivial) (.call (.unlock (i := true) rfl))
      |>.tail (by trivial) (.incoming (i := true) (k := ()) ⟨some name, none⟩ (by trivial) rfl)
      |>.tail (by trivial) (.accept (k := ()) () rfl rfl rfl)
      |>.tail (by trivial) (.lookup (k := ()) (t := ()) (i := true) rfl rfl rfl rfl rfl rfl rfl)
      |>.tail (by trivial) (.spawn (k := ()) (t := ()) rfl rfl rfl rfl)
      |>.tail (by trivial) (.read (t := ()) request rfl rfl rfl hu)
      |>.tail (by trivial) (.ready (t := ()) (i := true) rfl rfl rfl rfl)
      |>.tail (by trivial) (.answer (t := ()) () rfl rfl), rfl⟩
  obtain ⟨s, hs, hcalls⟩ := hrun
  exact ⟨s, hs, hcalls, (streams_served hs).1⟩

end Dhttp.Network
