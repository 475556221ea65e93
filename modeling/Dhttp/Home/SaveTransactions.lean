import Dhttp.Home.SaveRuns

namespace Dhttp.Home
open Dhttp.Lib
set_option autoImplicit true

abbrev ProfileDisk := Disk ProfilePath Text UInt8

/-- What a call has done to `ssl` when it returns: it has put its pair there, or left everything in
place, or it reports where the old material is. -/
inductive SaveOutcome (call : SaveCall) (before after : ProfileDisk) (id : Nat) :
    Except SaveIdentityError Unit → Prop
  | saved (h : after .ssl = some call.pair) : SaveOutcome call before after id (.ok ())
  | kept (hne : ∀ source target, error ≠ .rollback source target)
      (h : after .ssl = before .ssl) : SaveOutcome call before after id (.error error)
  | moved (hold : before .ssl ≠ none) (h : after (.backup id) = before .ssl) :
      SaveOutcome call before after id (.error (.rollback (.backup id) .ssl))

/-- The outcome shows at `ssl` and at the backup. -/
theorem SaveOutcome.congr {id : Nat} (h : SaveOutcome call before after id result)
    (hs : after' .ssl = after .ssl) (hb : after' (.backup id) = after (.backup id)) :
    SaveOutcome call before after' id result := by
  cases h with
  | saved h => exact .saved (hs.trans h)
  | kept hne h => exact .kept hne (hs.trans h)
  | moved hold h => exact .moved hold (hb.trans h)

/-- Where the old material is while a call runs as transaction `id`. -/
def Phase (call : SaveCall) (before : ProfileDisk) (id : Nat) (s : Saves Unit) : SavePc → Prop
  | .idle | .creatingProfile | .numbering => s.transactionId = id ∧ s.disk .ssl = before .ssl
  | .staging i | .creating i _ | .writing i _ _ | .inspecting i =>
    i = id ∧ s.disk .ssl = before .ssl
  | .preserving i => i = id ∧ before .ssl ≠ none ∧ s.disk .ssl = before .ssl
  | .installing i false => i = id ∧ s.disk .ssl = before .ssl
  | .installing i true | .restoring i =>
    i = id ∧ before .ssl ≠ none ∧ s.disk (.backup id) = before .ssl
  | .removingStage i error => i = id ∧ SaveOutcome call before s.disk id (.error error)
  | .removingBackup i => i = id ∧ s.disk .ssl = some call.pair
  | .returned result => SaveOutcome call before s.disk id result

/-- The old material is accounted for, and nothing else of the directory is touched. -/
structure Accounted (call : SaveCall) (before : ProfileDisk) (id : Nat) (s : Saves Unit) :
    Prop where
  phase : Phase call before id s (s.pc ())
  frame : ∀ path, path ≠ .ssl → path ≠ .stage id → path ≠ .backup id →
    s.disk path = before path

section Transaction
variable {call : SaveCall} {before : ProfileDisk} {id : Nat} {s s' : Saves Unit}

/-- A call that has a transaction number has the one the counter gave it. -/
theorem Phase.id_eq (h : Phase call before id s pc) (hi : pc.id? = some i) : i = id := by
  cases pc with
  | idle | creatingProfile | numbering | returned => cases hi
  | staging | creating | writing | inspecting | preserving | restoring | removingStage
    | removingBackup =>
    cases hi
    exact h.1
  | installing _ hadOldMaterial =>
    cases hi
    cases hadOldMaterial with
    | false | true => exact h.1

theorem Accounted.go (h : Accounted call before id s) (hp : Phase call before id s pc) :
    Accounted call before id (s.go () pc) := by
  refine ⟨?_, h.frame⟩
  change Phase call before id (s.go () pc) (Function.update s.pc () pc ())
  rw [Function.update_self]
  cases pc with
  | installing _ hadOldMaterial =>
    cases hadOldMaterial with
    | false | true => exact hp
  | _ => exact hp

/-- A failing operation loses nothing. -/
theorem Phase.failed (h : Phase call before id s pc) (hf : pc.failed = some pc') :
    Phase call before id s pc' := by
  cases pc with
  | idle | numbering | returned => cases hf
  | creatingProfile | staging =>
    cases hf
    exact .kept nofun h.2
  | creating | writing | inspecting =>
    cases hf
    exact ⟨h.1, .kept nofun h.2⟩
  | preserving =>
    cases hf
    exact ⟨h.1, .kept nofun h.2.2⟩
  | installing _ hadOldMaterial =>
    cases hadOldMaterial with
    | false =>
      cases hf
      exact ⟨h.1, .kept nofun h.2⟩
    | true =>
      cases hf
      exact h
  | restoring =>
    cases hf
    obtain ⟨rfl, hold, hb⟩ := h
    exact ⟨rfl, .moved hold hb⟩
  | removingStage =>
    cases hf
    exact h.2
  | removingBackup =>
    cases hf
    exact .saved h.2

/-- The phase shows at `ssl`, at the backup and at the counter. -/
theorem Phase.congr (h : Phase call before id s pc) (hs : s'.disk .ssl = s.disk .ssl)
    (hb : s'.disk (.backup id) = s.disk (.backup id)) (ht : s'.transactionId = s.transactionId) :
    Phase call before id s' pc := by
  cases pc with
  | idle | creatingProfile | numbering => exact ⟨ht.trans h.1, hs.trans h.2⟩
  | staging | creating | writing | inspecting => exact ⟨h.1, hs.trans h.2⟩
  | preserving => exact ⟨h.1, h.2.1, hs.trans h.2.2⟩
  | installing _ hadOldMaterial =>
    cases hadOldMaterial with
    | false => exact ⟨h.1, hs.trans h.2⟩
    | true => exact ⟨h.1, h.2.1, hb.trans h.2.2⟩
  | restoring => exact ⟨h.1, h.2.1, hb.trans h.2.2⟩
  | removingStage => exact ⟨h.1, h.2.congr hs hb⟩
  | removingBackup => exact ⟨h.1, hs.trans h.2⟩
  | returned => exact SaveOutcome.congr h hs hb

/-- A call works on its own stage. -/
theorem Accounted.putStage (h : Accounted call before id s) (hp : Phase call before id s pc)
    (hi : pc.id? = some i) : Accounted call before id ((s.go () pc).put (.stage i) tree) := by
  have hid := hp.id_eq hi
  have hgo := h.go hp
  have hdisk {path : ProfilePath} (hne : path ≠ .stage i) :
      ((s.go () pc).put (.stage i) tree).disk path = s.disk path := (s.go () pc).put_disk hne tree
  refine ⟨hgo.phase.congr (hdisk nofun) (hdisk nofun) rfl, fun path hs hstage hb => ?_⟩
  rw [hdisk (hid ▸ hstage)]
  exact h.frame path hs hstage hb

/-- A rename moves the old material from `ssl`, or back, or the new material to `ssl`. -/
theorem Accounted.rename (h : Accounted call before id s)
    (hr : Disk.rename s.disk source target = some disk)
    (hsource : source = .ssl ∨ source = .stage id ∨ source = .backup id)
    (htarget : target = .ssl ∨ target = .backup id)
    (hp : Phase call before id { s.go () pc with disk := disk } pc) :
    Accounted call before id { s.go () pc with disk := disk } := by
  refine ⟨?_, fun path hs hstage hb => ?_⟩
  · change Phase call before id _ (Function.update s.pc () pc ())
    rw [Function.update_self]
    exact hp
  · have hne : path ≠ source ∧ path ≠ target := by
      constructor
      · rcases hsource with rfl | rfl | rfl <;> assumption
      · rcases htarget with rfl | rfl <;> assumption
    exact (Disk.rename_of_ne hr hne.1 hne.2).trans (h.frame path hs hstage hb)

theorem accounted_step (hc : Consistent (fun _ => call) (before .ssl) s)
    (h : Accounted call before id s) (hs : SaveStep (fun _ => call) s e s') :
    Accounted call before id s' := by
  have hphase := h.phase
  cases hs with
  | start hp =>
    rw [hp] at hphase
    exact h.go hphase
  | profile hp =>
    rw [hp] at hphase
    exact h.go hphase
  | number hp =>
    rw [hp] at hphase
    obtain ⟨hid, hssl⟩ := hphase
    refine ⟨?_, h.frame⟩
    change Phase call before id _ (Function.update s.pc () (.staging s.transactionId) ())
    rw [Function.update_self]
    exact ⟨hid, hssl⟩
  | stage hp hd =>
    rw [hp] at hphase
    exact h.putStage hphase rfl
  | create hp hd ht =>
    rw [hp] at hphase
    exact h.putStage hphase rfl
  | write hp hd hw hcount =>
    rw [hp] at hphase
    exact h.putStage hphase rfl
  | @written material _ _ _ hp =>
    rw [hp] at hphase
    apply h.go
    cases material with
    | cert | key => exact hphase
  | found hp hd =>
    rw [hp] at hphase
    obtain ⟨hid, hssl⟩ := hphase
    exact h.go ⟨hid, hssl ▸ hd, hssl⟩
  | missing hp hd =>
    rw [hp] at hphase
    exact h.go hphase
  | preserve hp hr =>
    rw [hp] at hphase
    obtain ⟨rfl, hold, hssl⟩ := hphase
    refine h.rename hr (.inl rfl) (.inr rfl) ⟨rfl, hold, ?_⟩
    exact (Disk.rename_target hr).trans hssl
  | @install hadOldMaterial disk _ i id' hp hr =>
    rw [hp] at hphase
    have hid : id' = id := hphase.id_eq rfl
    have hstage := hc.stage () id' call.pair (by rw [hp]; rfl) (by rw [hp]; rfl)
    have hpair : disk .ssl = some call.pair := (Disk.rename_target hr).trans hstage
    refine h.rename hr (.inr (.inl (congrArg ProfilePath.stage hid))) (.inl rfl) ?_
    cases hadOldMaterial with
    | false => exact .saved hpair
    | true => exact ⟨hid, hpair⟩
  | restore hp hr =>
    rw [hp] at hphase
    obtain ⟨rfl, hold, hb⟩ := hphase
    refine h.rename hr (.inr (.inr rfl)) (.inl rfl) ⟨rfl, .kept ?_ ?_⟩
    · intro source target he
      cases he
    · exact (Disk.rename_target hr).trans hb
  | @removeStage error tree tree' _ i id' hp hd hr =>
    have hput : Accounted call before id ((s.go () (s.pc ())).put (.stage id') tree') :=
      h.putStage hphase (by rw [hp]; rfl)
    rw [Saves.go, Function.update_eq_self] at hput
    exact hput
  | @removeBackup tree tree' _ i id' hp hd hr =>
    rw [hp] at hphase
    obtain ⟨rfl, hpair⟩ := hphase
    have hssl : (s.put (.backup id') tree').disk .ssl = s.disk .ssl := by
      apply s.put_disk
      intro he
      cases he
    refine ⟨?_, fun path hs hstage hb => (s.put_disk hb tree').trans (h.frame path hs hstage hb)⟩
    change Phase call before id' _ (s.pc ())
    rw [hp]
    exact ⟨rfl, hssl.trans hpair⟩
  | fail hf => exact h.go (hphase.failed hf)

theorem accounted_saves
    (h : Reaches (SaveStep fun _ => call) (fun _ _ => True) (saves Unit before id) s) :
    Accounted call before id s := by
  induction h with
  | refl => exact ⟨⟨rfl, rfl⟩, fun _ _ _ _ => rfl⟩
  | tail h _ hs ih => exact accounted_step (saves_consistent h).2 ih hs

/-- A call that returns Ok has installed its pair. Otherwise `ssl` is as it was, or the error says
where its material is now, and nothing but the stage and the backup of the call has changed. -/
theorem save_all_or_nothing
    (h : Reaches (SaveStep fun _ => call) (fun _ _ => True) (saves Unit before id) s)
    (hr : s.pc () = .returned result) :
    (result = .ok () → s.disk .ssl = some call.pair) ∧
    (∀ error, result = .error error → (∀ source target, error ≠ .rollback source target) →
      s.disk .ssl = before .ssl) ∧
    (∀ source target, result = .error (.rollback source target) →
      before .ssl ≠ none ∧ s.disk source = before .ssl) ∧
    (∀ path, path ≠ .ssl → path ≠ .stage id → path ≠ .backup id → s.disk path = before path) := by
  have haccounted := accounted_saves h
  have houtcome : SaveOutcome call before s.disk id result := by
    have hphase := haccounted.phase
    rw [hr] at hphase
    exact hphase
  refine ⟨?_, ?_, ?_, haccounted.frame⟩
  · intro he
    cases houtcome with
    | saved hssl => exact hssl
    | kept | moved => cases he
  · intro error he hne
    cases houtcome with
    | saved => cases he
    | kept _ hssl => exact hssl
    | moved =>
      cases he
      exact absurd rfl (hne _ _)
  · intro source target he
    cases houtcome with
    | saved => cases he
    | kept hne =>
      cases he
      exact absurd rfl (hne _ _)
    | moved hold hb =>
      cases he
      exact ⟨hold, hb⟩

end Transaction

/-- A profile whose `ssl` is a dangling link, with a file beside it. -/
def danglingLink : ProfileDisk := fun
  | .ssl => some (.link ["gone".toList])
  | .other _ => some (.file [0])
  | _ => none

/-- The installation and its rollback fail; the link is reported at the backup. -/
theorem save_all_or_nothing_rollback :
    ∃ s, Reaches (SaveStep fun _ => ⟨[1], [2]⟩) (fun _ _ => True) (saves Unit danglingLink 0) s ∧
      s.pc () = .returned (.error (.rollback (.backup 0) .ssl)) ∧
      s.disk (.backup 0) = some (.link ["gone".toList]) := by
  have h := @Reaches.refl _ Unit (SaveStep fun _ => ⟨[1], [2]⟩) (fun _ _ => True)
    (saves Unit danglingLink 0)
  have h := h.tail trivial (.start (i := ()) rfl)
  have h := h.tail trivial (.profile (i := ()) rfl)
  have h := h.tail trivial (.number (i := ()) rfl)
  have h := h.tail trivial (.stage (i := ()) rfl rfl)
  have h := h.tail trivial (.create (i := ()) rfl rfl rfl)
  have h := h.tail trivial (.write (i := ()) rfl rfl Nat.zero_lt_one (Nat.le_refl 1))
  have h := h.tail trivial (.written (i := ()) rfl)
  have h := h.tail trivial (.create (i := ()) rfl rfl rfl)
  have h := h.tail trivial (.write (i := ()) rfl rfl Nat.zero_lt_one (Nat.le_refl 1))
  have h := h.tail trivial (.written (i := ()) rfl)
  have h := h.tail trivial (.found (i := ()) rfl nofun)
  have h := h.tail trivial (.preserve (i := ()) rfl rfl)
  have h := h.tail trivial (.fail (i := ()) rfl)
  have h := h.tail trivial (.fail (i := ()) rfl)
  have h := h.tail trivial (.fail (i := ()) rfl)
  exact ⟨_, h, rfl, ((save_all_or_nothing h rfl).2.2.1 _ _ rfl).2⟩

end Dhttp.Home
