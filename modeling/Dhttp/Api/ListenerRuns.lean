import Dhttp.Api.Listening

namespace Dhttp.Api
open Dhttp.Lib
set_option autoImplicit true

section Places
variable {K L J X C T : Type} {s s' : Listening K L J X C T}

/-- What is known of a listener where it is. -/
def ListenPc.Place (s : Listening K L J X C T) (l : L) : ListenPc → Prop
  | idle => s.outer.call (.inr l) = .idle ∧ s.listed l = false ∧ s.inner l = scopeSystem _ _ _
  | registering => (s.outer.call (.inr l) = .idle ∨ (s.outer.call (.inr l)).Registers) ∧
    s.listed l = false ∧ s.inner l = scopeSystem _ _ _
  | preparing | starting _ =>
    s.outer.call (.inr l) = .registered ∧ s.listed l = false ∧ s.inner l = scopeSystem _ _ _
  | failed => (s.outer.call (.inr l) = .dropped ∨ ∃ e, s.outer.call (.inr l) = .refused e) ∧
    s.listed l = false ∧ s.inner l = scopeSystem _ _ _
  | waiting => s.outer.call (.inr l) = .registered ∧ s.listed l = true ∧ s.taskCall l = .idle
  | unlisted => s.outer.call (.inr l) = .registered ∧ s.listed l = false ∧ s.taskCall l = .idle
  | closing => s.outer.call (.inr l) = .registered ∧ s.listed l = false
  | closed => s.outer.call (.inr l) = .registered ∧ s.listed l = false ∧
    s.taskCall l = .stopped .close
  | released => s.outer.call (.inr l) = .dropped ∧ s.listed l = false ∧
    s.taskCall l = .stopped .close

/-- What a listener consists of is as it was. -/
structure SameListener (s s' : Listening K L J X C T) (l : L) : Prop where
  call : s'.outer.call (.inr l) = s.outer.call (.inr l)
  listed : s'.listed l = s.listed l
  inner : s'.inner l = s.inner l

theorem ListenPc.Place.same {pc : ListenPc} (h : pc.Place s l) (hs : SameListener s s' l) :
    pc.Place s' l := by
  cases pc <;> simp only [Place, Listening.taskCall, hs.call, hs.listed, hs.inner] at h ⊢ <;>
    exact h

theorem ListenPc.Place.unspawned {pc : ListenPc} (h : pc.Place s l) (hn : ¬ pc.Spawned) :
    s.inner l = scopeSystem _ _ _ ∧ s.listed l = false := by
  cases pc with
  | idle => exact ⟨h.2.2, h.2.1⟩
  | registering => exact ⟨h.2.2, h.2.1⟩
  | preparing => exact ⟨h.2.2, h.2.1⟩
  | starting polled => exact ⟨h.2.2, h.2.1⟩
  | failed => exact ⟨h.2.2, h.2.1⟩
  | _ => exact (hn trivial).elim

/-- The moves of a listener. -/
inductive ListenPc.Moves : ListenPc → ListenPc → Prop
  | start : Moves .idle .registering
  | refused : Moves .registering .failed
  | registered : Moves .registering .preparing
  | begin : Moves .preparing (.starting polled)
  | poll : Moves (.starting polled) (.starting polled')
  | unprepared : Moves .preparing .failed
  | fail : Moves (.starting polled) .failed
  | listen : Moves (.starting polled) .waiting
  | wake : Moves .waiting .unlisted
  | close : Moves .unlisted .closing
  | closed : Moves .closing .closed
  | release : Moves .closed .released

variable [DecidableEq K] [DecidableEq L] [DecidableEq J]

theorem update_inr {call : K ⊕ L → ScopeCall} (h : l' ≠ l) :
    Function.update call (.inr l) c (.inr l') = call (.inr l') :=
  Function.update_of_ne (fun he => h (Sum.inr.inj he)) _ _

/-- A step of one listener leaves the others alone. -/
theorem listenStep_others (hs : ListenStep s l s') (hn : l' ≠ l) :
    s'.pc l' = s.pc l' ∧ SameListener s s' l' := by
  have hgo {pc : ListenPc} : (s.go l pc).pc l' = s.pc l' := Function.update_of_ne hn _ _
  cases hs with
  | start | refused | registered | begin | poll | pend | closed => exact ⟨hgo, rfl, rfl, rfl⟩
  | register _ _ _ hl => exact ⟨rfl, hl l' hn, rfl, rfl⟩
  | unprepared | giveUp | drop | fail | release => exact ⟨hgo, update_inr hn, rfl, rfl⟩
  | listen | wake => exact ⟨hgo, rfl, Function.update_of_ne hn _ _, rfl⟩
  | close => exact ⟨hgo, rfl, rfl, Function.update_of_ne hn _ _⟩

theorem listenStep_moves (hs : ListenStep s l s') :
    s'.pc l = s.pc l ∨ (s.pc l).Moves (s'.pc l) := by
  have hgo {pc pc' : ListenPc} (hp : s.pc l = pc) (hm : pc.Moves pc') :
      Function.update s.pc l pc' l = s.pc l ∨ (s.pc l).Moves (Function.update s.pc l pc' l) := by
    rw [Function.update_self, hp]
    exact .inr hm
  cases hs with
  | start hp => exact hgo hp .start
  | register => exact .inl rfl
  | refused hp => exact hgo hp .refused
  | registered hp => exact hgo hp .registered
  | unprepared hp => exact hgo hp .unprepared
  | begin hp => exact hgo hp .begin
  | poll hp | pend hp => exact hgo hp .poll
  | giveUp hp | drop hp | fail hp => exact hgo hp .fail
  | listen hp => exact hgo hp .listen
  | wake hp => exact hgo hp .wake
  | close hp => exact hgo hp .close
  | closed hp => exact hgo hp .closed
  | release hp => exact hgo hp .release

omit [DecidableEq K] [DecidableEq J] in
theorem place_go {pc : ListenPc} (h : pc.Place s l) :
    ((s.go l pc).pc l).Place (s.go l pc) l := by
  change (Function.update s.pc l pc l).Place (s.go l pc) l
  rw [Function.update_self]
  exact h.same ⟨rfl, rfl, rfl⟩

omit [DecidableEq J] in
theorem dropOperation_call (s : Listening K L J X C T) (l : L) :
    (s.dropOperation l).outer.call (.inr l) = .dropped := Function.update_self _ _ _

/-- Where a listener gets, it knows what is known there. -/
theorem listenStep_place (h : (s.pc l).Place s l) (hs : ListenStep s l s') :
    (s'.pc l).Place s' l := by
  have hat {pc : ListenPc} (hp : s.pc l = pc) : pc.Place s l := by
    rw [← hp]
    exact h
  have hfails (hlisted : s.listed l = false) (hi : s.inner l = scopeSystem _ _ _) :
      (((s.dropOperation l).go l .failed).pc l).Place ((s.dropOperation l).go l .failed) l :=
    place_go ⟨.inl (dropOperation_call s l), hlisted, hi⟩
  cases hs with
  | start hp =>
    obtain ⟨hcall, hrest⟩ := hat hp
    exact place_go ⟨.inl hcall, hrest⟩
  | register hp hs hr hl =>
    obtain ⟨-, hrest⟩ := hat hp
    change (s.pc l).Place _ l
    rw [hp]
    exact ⟨.inr hr, hrest⟩
  | refused hp hr =>
    obtain ⟨-, hrest⟩ := hat hp
    exact place_go ⟨.inr ⟨_, hr⟩, hrest⟩
  | registered hp hr =>
    obtain ⟨-, hrest⟩ := hat hp
    exact place_go ⟨hr, hrest⟩
  | begin hp | poll hp | pend hp =>
    have hknown := hat hp
    exact place_go hknown
  | unprepared hp | giveUp hp | drop hp | fail hp =>
    obtain ⟨-, hlisted, hi⟩ := hat hp
    exact hfails hlisted hi
  | listen hp =>
    obtain ⟨hcall, -, hi⟩ := hat hp
    refine place_go ⟨hcall, Function.update_self _ _ _, ?_⟩
    change (s.inner l).scope.call none = .idle
    rw [hi]
    rfl
  | wake hp =>
    obtain ⟨hcall, -, hi⟩ := hat hp
    exact place_go ⟨hcall, Function.update_self _ _ _, hi⟩
  | close hp hi =>
    obtain ⟨hcall, hlisted, -⟩ := hat hp
    exact place_go ⟨hcall, hlisted⟩
  | closed hp hi =>
    obtain ⟨hcall, hlisted⟩ := hat hp
    exact place_go ⟨hcall, hlisted, hi⟩
  | release hp =>
    obtain ⟨-, hlisted, hi⟩ := hat hp
    exact place_go ⟨dropOperation_call s l, hlisted, hi⟩

/-- What a listener does to the scope of the handle is a step of a call. -/
theorem listenStep_outer (h : (s.pc l).Place s l) (hs : ListenStep s l s') :
    s'.outer = s.outer ∨ ScopeStep s.outer s'.outer := by
  have hat {pc : ListenPc} (hp : s.pc l = pc) : pc.Place s l := by
    rw [← hp]
    exact h
  have hdrop (hcall : s.outer.call (.inr l) = .registered) :
      ScopeStep s.outer (s.dropOperation l).outer := .drop hcall
  cases hs with
  | register _ hs => exact .inr hs
  | unprepared hp | giveUp hp | drop hp | fail hp | release hp =>
    have hknown := hat hp
    exact .inr (hdrop hknown.1)
  | _ => exact .inl rfl

theorem listenStep_inner {X : Type} [DecidableEq X] {s s' : Listening K L J X C T}
    (hs : ListenStep s l s') :
    s'.inner l = s.inner l ∨ SystemStep (s.inner l) () (s'.inner l) := by
  cases hs with
  | close hp hi =>
    right
    change SystemStep (s.inner l) () (Function.update s.inner l _ l)
    rw [Function.update_self]
    exact .scope (.stop hi (by decide))
  | _ => exact .inl rfl

omit [DecidableEq K] [DecidableEq L] [DecidableEq J] in
theorem spawned_token (h : (s.pc l).Place s l) (hp : (s.pc l).Spawned) :
    (s.outer.call (.inr l)).HasToken := by
  cases he : s.pc l with
  | waiting | unlisted | closing | closed | released =>
    rw [he] at h
    rw [h.1]
    trivial
  | _ =>
    rw [he] at hp
    exact hp.elim

omit [DecidableEq J] in
theorem closeStep_same [DecidableEq C] (hs : CloseStep s l s') :
    s'.pc = s.pc ∧ s'.listed = s.listed ∧ s'.inner = s.inner ∧
      s'.outer.call = s.outer.call := by
  cases hs <;> exact ⟨rfl, rfl, rfl, rfl⟩

end Places

section Invariants
variable {K L J X C T : Type} [DecidableEq K] [DecidableEq L] [DecidableEq J] [DecidableEq X]
  [DecidableEq C] {s s' : Listening K L J X C T}

structure ListeningInv (s : Listening K L J X C T) : Prop where
  outer : ScopeInv s.outer
  inner : ∀ l, SystemInv (s.inner l)
  place : ∀ l, (s.pc l).Place s l
  lock : ∀ l, Exclusive ClosePc.Holds (s.lock l) (s.closer l)
  handle : ∀ l, s.handle l = false → (∃ c, s.closer l c = .joining) ∨ s.pc l = .released ∨
    ∃ c, s.closer l c = .abandoned
  returned : ∀ l c, s.closer l c = .returned → s.pc l = .released ∨
    ∃ c', s.closer l c' = .abandoned
  closes : ∀ l c, s.closer l c ≠ .idle → (s.pc l).Spawned

omit [DecidableEq J] [DecidableEq X] in
theorem closeStep_outer (h : ListeningInv s) (hs : CloseStep s l s') :
    s'.outer = s.outer ∨ ScopeStep s.outer s'.outer := by
  cases hs with
  | fail hp hl => exact .inr (.storeError (spawned_token (h.place l) hl))
  | cancel hp =>
    have hl := h.closes l _ (by rw [hp]; nofun)
    exact .inr (.cancelToken (spawned_token (h.place l) hl))
  | _ => exact .inl rfl

/-- The two levels move by the steps of their scopes. -/
theorem listening_outer (h : ListeningInv s) (hs : ListeningStep s e s') :
    s'.outer = s.outer ∨ ScopeStep s.outer s'.outer := by
  cases hs with
  | listen hs => exact listenStep_outer (h.place _) hs
  | close hs => exact closeStep_outer h hs
  | outer hs => exact .inr hs
  | inner => exact .inl rfl

theorem listening_inner (hs : ListeningStep s e s') (l : L) :
    s'.inner l = s.inner l ∨ SystemStep (s.inner l) () (s'.inner l) := by
  cases hs with
  | @listen _ l' _ hs =>
    by_cases he : l = l'
    · rw [he]
      exact listenStep_inner hs
    · exact .inl (listenStep_others hs he).2.inner
  | close hs => exact .inl (congrFun (closeStep_same hs).2.2.1 l)
  | outer => exact .inl rfl
  | @inner _ _ l' hp hs =>
    change Function.update s.inner l' _ l = _ ∨ SystemStep _ () (Function.update s.inner l' _ l)
    by_cases he : l = l'
    · rw [he, Function.update_self]
      exact .inr hs
    · rw [Function.update_of_ne he]
      exact .inl rfl

/-- A listener stays where it is or moves on. -/
theorem listening_moves (hs : ListeningStep s e s') (l : L) :
    s'.pc l = s.pc l ∨ (s.pc l).Moves (s'.pc l) := by
  cases hs with
  | @listen _ l' _ hs =>
    by_cases he : l = l'
    · rw [he]
      exact listenStep_moves hs
    · exact .inl (listenStep_others hs he).1
  | close hs => exact .inl (congrFun (closeStep_same hs).1 l)
  | outer => exact .inl rfl
  | inner => exact .inl rfl

/-- Nothing but the places of the listeners and their scopes has changed. -/
structure SameCloses (s s' : Listening K L J X C T) : Prop where
  closer : s'.closer = s.closer
  lock : s'.lock = s.lock
  handle : s'.handle = s.handle

omit [DecidableEq X] [DecidableEq C] in
theorem listenStep_closes (hs : ListenStep s l s') : SameCloses s s' := by
  cases hs <;> exact ⟨rfl, rfl, rfl⟩

theorem ListenPc.Moves.spawned {pc pc' : ListenPc} (h : pc.Moves pc') (hp : pc.Spawned) :
    pc'.Spawned := by
  cases h with
  | wake | close | closed | release => trivial
  | _ => exact hp.elim

theorem listening_spawned (hs : ListeningStep s e s') (h : (s.pc l).Spawned) :
    (s'.pc l).Spawned := by
  rcases listening_moves hs l with he | hm
  · rw [he]
    exact h
  · exact hm.spawned h

theorem listening_released (hs : ListeningStep s e s') (h : s.pc l = .released) :
    s'.pc l = .released := by
  rcases listening_moves hs l with he | hm
  · exact he.trans h
  · rw [h] at hm
    cases hm

/-- The task's `close` of a scope that has returned has returned. -/
theorem taskCall_stopped {scopes scopes' : ScopeSystem (Option J) X T}
    (hs : SystemStep scopes () scopes') (h : scopes.scope.call none = .stopped .close) :
    scopes'.scope.call none = .stopped .close :=
  ended_run (.tail .refl trivial hs) h

omit [DecidableEq K] [DecidableEq C] in
theorem within_place {scopes : ScopeSystem (Option J) X T} (h : (s.pc l).Place s l)
    (hp : (s.pc l).Spawned) (hs : SystemStep (s.inner l) () scopes)
    (hi : s.taskCall l = .idle → scopes.scope.call none = .idle) :
    (s.pc l).Place (s.within l scopes) l := by
  have htask : (s.within l scopes).taskCall l = scopes.scope.call none := by
    change (Function.update s.inner l scopes l).scope.call none = _
    rw [Function.update_self]
  cases he : s.pc l with
  | waiting | unlisted =>
    rw [he] at h
    exact ⟨h.1, h.2.1, htask.trans (hi h.2.2)⟩
  | closing =>
    rw [he] at h
    exact h
  | closed | released =>
    rw [he] at h
    exact ⟨h.1, h.2.1, htask.trans (taskCall_stopped hs h.2.2)⟩
  | _ =>
    rw [he] at hp
    exact hp.elim

theorem listening_place (h : ListeningInv s) (hs : ListeningStep s e s') (l : L) :
    (s'.pc l).Place s' l := by
  cases hs with
  | @listen _ l' _ hs =>
    by_cases he : l = l'
    · rw [he]
      exact listenStep_place (h.place l') hs
    · obtain ⟨hpc, hsame⟩ := listenStep_others hs he
      rw [hpc]
      exact (h.place l).same hsame
  | close hs =>
    obtain ⟨hpc, hlisted, hinner, hcall⟩ := closeStep_same hs
    rw [hpc]
    exact (h.place l).same ⟨congrFun hcall _, congrFun hlisted l, congrFun hinner l⟩
  | outer hs hl => exact (h.place l).same ⟨hl l, rfl, rfl⟩
  | @inner _ scopes l' hp hs hi =>
    by_cases he : l = l'
    · rw [he]
      exact within_place (h.place l') hp hs hi
    · exact (h.place l).same ⟨rfl, rfl, Function.update_of_ne he _ _⟩

omit [DecidableEq K] [DecidableEq L] [DecidableEq J] [DecidableEq X] [DecidableEq C] in
theorem listeningInv_closes (h : ListeningInv s) (hc : SameCloses s s')
    (hr : ∀ l, s.pc l = .released → s'.pc l = .released)
    (hp : ∀ l, (s.pc l).Spawned → (s'.pc l).Spawned)
    (houter : ScopeInv s'.outer) (hinner : ∀ l, SystemInv (s'.inner l))
    (hplace : ∀ l, (s'.pc l).Place s' l) : ListeningInv s' := by
  refine ⟨houter, hinner, hplace, ?_, ?_, ?_, ?_⟩
  · rw [hc.lock, hc.closer]
    exact h.lock
  · rw [hc.handle, hc.closer]
    intro l hl
    exact (h.handle l hl).imp_right fun hr' => hr'.imp_left (hr l)
  · rw [hc.closer]
    intro l c hl
    exact (h.returned l c hl).imp_left (hr l)
  · rw [hc.closer]
    intro l c hl
    exact hp l (h.closes l c hl)

omit [DecidableEq K] [DecidableEq J] [DecidableEq X] in
theorem goCloser_self (s : Listening K L J X C T) (l : L) (c : C) (pc : ClosePc) :
    (s.goCloser l c pc).closer l c = pc := by
  change Function.update s.closer l (Function.update (s.closer l) c pc) l c = pc
  rw [Function.update_self, Function.update_self]

omit [DecidableEq K] [DecidableEq J] [DecidableEq X] in
theorem goCloser_other (s : Listening K L J X C T) (hn : ¬ (l' = l ∧ c' = c)) (pc : ClosePc) :
    (s.goCloser l c pc).closer l' c' = s.closer l' c' := by
  change Function.update s.closer l (Function.update (s.closer l) c pc) l' c' = s.closer l' c'
  by_cases hl : l' = l
  · have hc : c' ≠ c := fun he => hn ⟨hl, he⟩
    rw [hl, Function.update_self, Function.update_of_ne hc]
  · rw [Function.update_of_ne hl]

omit [DecidableEq K] [DecidableEq J] [DecidableEq X] in
/-- A `close` goes on. It takes the handle when it begins to wait for the task, and stops waiting
for it when the task is over or when it is dropped. -/
theorem closer_update (h : ListeningInv s) (hcloser : s'.closer = (s.goCloser l c pc).closer)
    (hpc : s'.pc = s.pc) (hlock : ∀ l, Exclusive ClosePc.Holds (s'.lock l) (s'.closer l))
    (hhandle : ∀ l', s'.handle l' = s.handle l' ∨ l' = l ∧ pc = .joining)
    (hjoin : s.closer l c = .joining → pc = .abandoned ∨ s.pc l = .released)
    (habandon : s.closer l c ≠ .abandoned)
    (hreturned : pc = .returned → s.pc l = .released ∨ ∃ c', s.closer l c' = .abandoned)
    (hspawned : (s.pc l).Spawned) (houter : ScopeInv s'.outer)
    (hinner : ∀ l, SystemInv (s'.inner l)) (hplace : ∀ l, (s'.pc l).Place s' l) :
    ListeningInv s' := by
  have hat : s'.closer l c = pc := by
    rw [hcloser]
    exact goCloser_self s l c pc
  have hother {l' : L} {c' : C} (hn : ¬ (l' = l ∧ c' = c)) : s'.closer l' c' = s.closer l' c' := by
    rw [hcloser]
    exact goCloser_other s hn pc
  have hkeep {l' : L} (hex : ∃ c', s.closer l' c' = .abandoned) :
      ∃ c', s'.closer l' c' = .abandoned := by
    obtain ⟨c', hc'⟩ := hex
    refine ⟨c', ?_⟩
    rw [hother]
    · exact hc'
    · rintro ⟨hl, hc⟩
      rw [hl, hc] at hc'
      exact habandon hc'
  refine ⟨houter, hinner, hplace, hlock, ?_, ?_, ?_⟩
  · intro l' hl'
    rw [hpc]
    rcases hhandle l' with hsame | ⟨hl, hj⟩
    · rw [hsame] at hl'
      rcases h.handle l' hl' with ⟨c', hc'⟩ | hr | hex
      · by_cases hn : l' = l ∧ c' = c
        · rw [hn.1, hn.2] at hc'
          rw [hn.1]
          rcases hjoin hc' with ha | hr
          · exact .inr (.inr ⟨c, hat.trans ha⟩)
          · exact .inr (.inl hr)
        · exact .inl ⟨c', (hother hn).trans hc'⟩
      · exact .inr (.inl hr)
      · exact .inr (.inr (hkeep hex))
    · rw [hl]
      exact .inl ⟨c, hat.trans hj⟩
  · intro l' c' hc'
    rw [hpc]
    by_cases hn : l' = l ∧ c' = c
    · rw [hn.1, hn.2, hat] at hc'
      rw [hn.1]
      exact (hreturned hc').imp_right hkeep
    · rw [hother hn] at hc'
      exact (h.returned l' c' hc').imp_right hkeep
  · intro l' c' hc'
    rw [hpc]
    by_cases hn : l' = l ∧ c' = c
    · rw [hn.1]
      exact hspawned
    · rw [hother hn] at hc'
      exact h.closes l' c' hc'

omit [DecidableEq K] [DecidableEq J] [DecidableEq X] in
theorem lock_update (h : ∀ l, Exclusive ClosePc.Holds (s.lock l) (s.closer l)) {lock : L → Option C}
    (hl : Exclusive ClosePc.Holds (lock l) (Function.update (s.closer l) c pc))
    (ho : ∀ l', l' ≠ l → lock l' = s.lock l') :
    ∀ l', Exclusive ClosePc.Holds (lock l') ((s.goCloser l c pc).closer l') := by
  intro l'
  change Exclusive _ _ (Function.update s.closer l (Function.update (s.closer l) c pc) l')
  by_cases he : l' = l
  · rw [he, Function.update_self]
    exact hl
  · rw [ho l' he, Function.update_of_ne he]
    exact h l'

omit [DecidableEq J] [DecidableEq X] in
theorem closeStep_inv (h : ListeningInv s) (hs : CloseStep s l s') (houter : ScopeInv s'.outer)
    (hinner : ∀ l, SystemInv (s'.inner l)) (hplace : ∀ l, (s'.pc l).Place s' l) :
    ListeningInv s' := by
  have hkeep {c : C} {pc pc' : ClosePc} (hp : s.closer l c = pc)
      (hto : pc'.Holds ↔ pc.Holds) :
      ∀ l', Exclusive ClosePc.Holds (s.lock l') ((s.goCloser l c pc').closer l') := by
    apply lock_update h.lock _ fun _ _ => rfl
    apply (h.lock l).keep
    rw [hp]
    exact hto
  have hrelease {c : C} {pc : ClosePc} (hp : s.closer l c = .joining) (hto : ¬ pc.Holds) :
      ∀ l', Exclusive ClosePc.Holds (((s.goCloser l c pc).setLock l none).lock l')
        ((s.goCloser l c pc).closer l') := by
    apply lock_update h.lock
    · have hlock : s.lock l = some c := (h.lock l c).1 hp
      have hold := h.lock l
      rw [hlock] at hold
      change Exclusive _ (Function.update s.lock l none l) _
      rw [Function.update_self]
      exact hold.release hto
    · exact fun l' hn => Function.update_of_ne hn _ _
  have hspawned {c : C} {pc : ClosePc} (hp : s.closer l c = pc) (hn : pc ≠ .idle) :
      (s.pc l).Spawned := by
    apply h.closes l c
    rw [hp]
    exact hn
  cases hs with
  | fail hp hl =>
    exact closer_update h rfl rfl (hkeep hp (iff_of_false nofun nofun)) (fun _ => .inl rfl)
      (by rw [hp]; nofun) (by rw [hp]; nofun) nofun hl houter hinner hplace
  | cancel hp =>
    exact closer_update h rfl rfl (hkeep hp (iff_of_false nofun nofun)) (fun _ => .inl rfl)
      (by rw [hp]; nofun) (by rw [hp]; nofun) nofun (hspawned hp nofun) houter hinner hplace
  | @join c hp hl hh =>
    refine closer_update h rfl rfl ?_ ?_ (by rw [hp]; nofun) (by rw [hp]; nofun) nofun
      (hspawned hp nofun) houter hinner hplace
    · apply lock_update h.lock
      · have hold := h.lock l
        rw [hl] at hold
        change Exclusive _ (Function.update s.lock l (some c) l) _
        rw [Function.update_self]
        exact hold.take c rfl
      · exact fun l' hn => Function.update_of_ne hn _ _
    · intro l'
      by_cases he : l' = l
      · exact .inr ⟨he, rfl⟩
      · exact .inl (Function.update_of_ne he _ _)
  | taken hp hl hh =>
    refine closer_update h rfl rfl (hkeep hp (iff_of_false nofun nofun)) (fun _ => .inl rfl)
      (by rw [hp]; nofun) (by rw [hp]; nofun) ?_ (hspawned hp nofun) houter hinner hplace
    intro _
    rcases h.handle l hh with ⟨c', hc'⟩ | hrest
    · -- whoever has the handle has the lock
      have hold := h.lock l
      rw [hl] at hold
      exact (hold.not_holds c' hc').elim
    · exact hrest
  | joined hp ht =>
    exact closer_update h rfl rfl (hrelease hp nofun) (fun _ => .inl rfl)
      (fun _ => .inr ht) (by rw [hp]; nofun) (fun _ => .inl ht) (hspawned hp nofun)
      houter hinner hplace
  | abandon hp =>
    exact closer_update h rfl rfl (hrelease hp nofun) (fun _ => .inl rfl)
      (fun _ => .inl rfl) (by rw [hp]; nofun) nofun (hspawned hp nofun) houter hinner hplace
  | drop hp =>
    exact closer_update h rfl rfl (hkeep hp (iff_of_false nofun nofun)) (fun _ => .inl rfl)
      (by rw [hp]; nofun) (by rw [hp]; nofun) nofun (hspawned hp nofun) houter hinner hplace

theorem listeningInv_step (h : ListeningInv s) (hs : ListeningStep s e s') :
    ListeningInv s' := by
  have houter : ScopeInv s'.outer := by
    rcases listening_outer h hs with he | hstep
    · rw [he]
      exact h.outer
    · exact scopeInv_step h.outer hstep
  have hinner : ∀ l, SystemInv (s'.inner l) := by
    intro l
    rcases listening_inner hs l with he | hstep
    · rw [he]
      exact h.inner l
    · exact systemInv_step (h.inner l) hstep
  have hplace := listening_place h hs
  have hreleased := fun l (hl : s.pc l = .released) => listening_released hs hl
  have hspawned := fun l (hl : (s.pc l).Spawned) => listening_spawned hs hl
  cases hs with
  | listen hs =>
    exact listeningInv_closes h (listenStep_closes hs) hreleased hspawned houter hinner hplace
  | close hs => exact closeStep_inv h hs houter hinner hplace
  | outer | inner =>
    exact listeningInv_closes h ⟨rfl, rfl, rfl⟩ hreleased hspawned houter hinner hplace

omit [DecidableEq K] [DecidableEq L] [DecidableEq J] [DecidableEq X] [DecidableEq C] in
theorem listeningInv_new : ListeningInv (Listening.new K L J X C T) where
  outer := scopeInv_new
  inner _ := ⟨scopeInv_new, by intro r j hj; cases hj⟩
  place _ := ⟨rfl, rfl, rfl⟩
  lock _ _ := iff_of_false nofun nofun
  handle _ h := by cases h
  returned _ _ h := by cases h
  closes _ _ h := (h rfl).elim

abbrev ListeningRun (s s' : Listening K L J X C T) : Prop :=
  Reaches ListeningStep (fun _ _ => True) s s'

theorem listeningInv_run (h : ListeningInv s) (hs : ListeningRun s s') : ListeningInv s' :=
  hs.invariant h fun _ _ _ hi _ hs => listeningInv_step hi hs

end Invariants

end Dhttp.Api
