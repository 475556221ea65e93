import Dhttp.Home.SaveIdentity

namespace Dhttp.Home
open Dhttp.Lib
set_option autoImplicit true

namespace SavePc

/-- The transaction of a call. -/
def id? : SavePc → Option Nat
  | staging id | creating id _ | writing id _ _ | inspecting id | preserving id | installing id _
    | restoring id | removingStage id _ | removingBackup id => some id
  | idle | creatingProfile | numbering | returned _ => none

/-- What a call has in its stage until it is installed. -/
def staged (call : SaveCall) : SavePc → Option Tree
  | creating _ .cert => some (.dir [])
  | writing _ .cert written => some (.dir [(certFileName, .file (call.cert.take written))])
  | creating _ .key => some (.dir [(certFileName, .file call.cert)])
  | writing _ .key written => some (.dir
    [(certFileName, .file call.cert), (keyFileName, .file (call.key.take written))])
  | inspecting _ | preserving _ | installing _ _ => some call.pair
  | _ => none

/-- The call may put its backup back. -/
def MayRestore : SavePc → Prop
  | installing _ true | restoring _ => True
  | _ => False

/-- The call has installed its material. -/
def Installed : SavePc → Prop
  | removingBackup _ | returned (.ok ()) => True
  | _ => False

/-- Where a call goes when an operation fails. -/
theorem failed_cases {pc pc' : SavePc} (h : pc.failed = some pc') :
    (∃ error, pc' = .returned (.error error)) ∨
      (∃ id, pc = .removingBackup id ∧ pc' = .returned (.ok ())) ∨
      (∃ id error, pc.id? = some id ∧ pc' = .removingStage id error) ∨
      ∃ id, pc = .installing id true ∧ pc' = .restoring id := by
  cases pc with
  | idle | numbering | returned => cases h
  | creatingProfile | staging | removingStage =>
    cases h
    exact .inl ⟨_, rfl⟩
  | removingBackup =>
    cases h
    exact .inr (.inl ⟨_, rfl, rfl⟩)
  | creating | writing | inspecting | preserving | restoring =>
    cases h
    exact .inr (.inr (.inl ⟨_, _, rfl, rfl⟩))
  | installing _ hadOldMaterial =>
    cases hadOldMaterial with
    | false =>
      cases h
      exact .inr (.inr (.inl ⟨_, _, rfl, rfl⟩))
    | true =>
      cases h
      exact .inr (.inr (.inr ⟨_, rfl, rfl⟩))

theorem failed_id? {pc pc' : SavePc} (h : pc.failed = some pc') :
    pc'.id? = none ∨ pc'.id? = pc.id? := by
  obtain ⟨_, rfl⟩ | ⟨_, rfl, rfl⟩ | ⟨_, _, hid, rfl⟩ | ⟨_, rfl, rfl⟩ := failed_cases h
  · exact .inl rfl
  · exact .inl rfl
  · exact .inr hid.symm
  · exact .inr rfl

theorem failed_staged {pc pc' : SavePc} (h : pc.failed = some pc') (call : SaveCall) :
    pc'.staged call = none := by
  obtain ⟨_, rfl⟩ | ⟨_, rfl, rfl⟩ | ⟨_, _, -, rfl⟩ | ⟨_, rfl, rfl⟩ := failed_cases h
  all_goals rfl

theorem failed_mayRestore {pc pc' : SavePc} (h : pc.failed = some pc') (hr : pc'.MayRestore) :
    pc.MayRestore := by
  obtain ⟨_, rfl⟩ | ⟨_, rfl, rfl⟩ | ⟨_, _, -, rfl⟩ | ⟨_, rfl, rfl⟩ := failed_cases h
  · exact hr.elim
  · exact hr.elim
  · exact hr.elim
  · trivial

theorem failed_installed {pc pc' : SavePc} (h : pc.failed = some pc') (hi : pc'.Installed) :
    pc.Installed := by
  obtain ⟨_, rfl⟩ | ⟨_, rfl, rfl⟩ | ⟨_, _, -, rfl⟩ | ⟨_, rfl, rfl⟩ := failed_cases h
  · exact hi.elim
  · trivial
  · exact hi.elim
  · exact hi.elim

end SavePc

section Transactions
variable {I : Type} {call : I → SaveCall} {s s' : Saves I}

/-- Nothing but the path that is written changes. -/
theorem Saves.put_disk (s : Saves I) {path target : ProfilePath} (hne : path ≠ target)
    (tree : Option Tree) : (s.put target tree).disk path = s.disk path := by
  change Function.update s.disk target tree path = s.disk path
  exact Function.update_of_ne hne tree s.disk

/-- No two calls have one transaction. -/
structure Numbered (s : Saves I) : Prop where
  bound : ∀ i id, (s.pc i).id? = some id → id < s.transactionId
  distinct : ∀ i j id, (s.pc i).id? = some id → (s.pc j).id? = some id → i = j

variable [DecidableEq I]

theorem numbered_update (h : Numbered s) (hpc : s'.pc = Function.update s.pc i pc)
    (ht : s'.transactionId = s.transactionId) (hi : pc.id? = none ∨ pc.id? = (s.pc i).id?) :
    Numbered s' := by
  have hid : ∀ j id, (s'.pc j).id? = some id → (s.pc j).id? = some id := by
    intro j id hj
    rw [hpc] at hj
    by_cases he : j = i
    · rw [he, Function.update_self] at hj
      rw [he]
      obtain hi | hi := hi
      · exact absurd (hi.symm.trans hj) nofun
      · exact hi.symm.trans hj
    · rw [Function.update_of_ne he] at hj
      exact hj
  refine ⟨fun j id hj => ?_, fun j k id hj hk => h.distinct j k id (hid j id hj) (hid k id hk)⟩
  rw [ht]
  exact h.bound j id (hid j id hj)

theorem numbered_step (h : Numbered s) (hs : SaveStep call s e s') : Numbered s' := by
  cases hs with
  | start hp | profile hp => exact numbered_update h rfl rfl (.inl rfl)
  | @number _ i hp =>
    have hfresh : ∀ j, (s.pc j).id? ≠ some s.transactionId :=
      fun j hj => Nat.lt_irrefl _ (h.bound j _ hj)
    have hid : ∀ j id, (Function.update s.pc i (.staging s.transactionId) j).id? = some id →
        (j = i ∧ id = s.transactionId) ∨ (s.pc j).id? = some id := by
      intro j id hj
      by_cases he : j = i
      · rw [he, Function.update_self] at hj
        exact .inl ⟨he, (Option.some.inj hj).symm⟩
      · rw [Function.update_of_ne he] at hj
        exact .inr hj
    refine ⟨fun j id hj => ?_, fun j k id hj hk => ?_⟩
    · obtain ⟨-, rfl⟩ | hj := hid j id hj
      · exact Nat.lt_succ_self _
      · exact Nat.lt_succ_of_lt (h.bound j id hj)
    · obtain ⟨rfl, rfl⟩ | hj' := hid j id hj
      · exact ((hid k _ hk).resolve_right (hfresh k)).1.symm
      · obtain ⟨rfl, rfl⟩ | hk' := hid k id hk
        · exact absurd hj' (hfresh j)
        · exact h.distinct j k id hj' hk'
  | stage hp _ | create hp _ _ | found hp _ | missing hp _ | preserve hp _
    | restore hp _ => exact numbered_update h rfl rfl (.inr (by rw [hp]; rfl))
  | write hp _ _ _ => exact numbered_update h rfl rfl (.inr (by rw [hp]; rfl))
  | @written material _ i _ hp =>
    refine numbered_update h rfl rfl (.inr ?_)
    rw [hp]
    cases material with
    | cert | key => rfl
  | @install hadOldMaterial _ _ i _ hp hr =>
    refine numbered_update (i := i) h rfl rfl ?_
    cases hadOldMaterial with
    | false => exact .inl rfl
    | true => exact .inr (by rw [hp]; rfl)
  | removeStage hp hd hr | removeBackup hp hd hr => exact ⟨h.bound, h.distinct⟩
  | fail hf => exact numbered_update h rfl rfl (SavePc.failed_id? hf)

end Transactions

section Contents
variable {I : Type} {call : I → SaveCall} {original : Option Tree} {s s' : Saves I}

/-- The tree was there before, or it is the complete pair of one call. -/
def Genuine (call : I → SaveCall) (original : Option Tree) (tree : Tree) : Prop :=
  original = some tree ∨ ∃ i, tree = (call i).pair

/-- Each stage is as far as its call says, and what may become `ssl` is genuine. -/
structure Consistent (call : I → SaveCall) (original : Option Tree) (s : Saves I) : Prop where
  ssl : ∀ tree, s.disk .ssl = some tree → Genuine call original tree
  stage : ∀ i id tree, (s.pc i).id? = some id → (s.pc i).staged (call i) = some tree →
    s.disk (.stage id) = some tree
  backup : ∀ i id tree, (s.pc i).id? = some id → (s.pc i).MayRestore →
    s.disk (.backup id) = some tree → Genuine call original tree

theorem fileName_ne : certFileName ≠ keyFileName := by decide

theorem create_staged {id : Nat} (call : SaveCall)
    (hs : (SavePc.creating id material).staged call = some tree)
    (hc : tree.create material.fileName = some tree') :
    (SavePc.writing id material 0).staged call = some tree' := by
  cases material with
  | cert =>
    cases hs
    cases hc
    rfl
  | key =>
    cases hs
    have hname : ∀ entry ∈ [((certFileName, .file call.cert) : Text × Tree)],
        entry.1 ≠ keyFileName := List.forall_mem_singleton.2 fileName_ne
    rw [Material.fileName, FileTree.create, if_pos hname] at hc
    cases hc
    rfl

theorem write_staged {id written : Nat} (call : SaveCall) (count : Nat)
    (hs : (SavePc.writing id material written).staged call = some tree) :
    (SavePc.writing id material count).staged call =
      some (tree.write material.fileName ((call.contents material).take count)) := by
  cases material with
  | cert =>
    cases hs
    rfl
  | key =>
    cases hs
    rfl

theorem written_staged {id : Nat} (call : SaveCall) (material : Material) :
    (SavePc.written id material).staged call =
      (SavePc.writing id material (call.contents material).length).staged call := by
  cases material with
  | cert => simp [SavePc.written, SavePc.staged, SaveCall.contents]
  | key => simp [SavePc.written, SavePc.staged, SaveCall.contents, SaveCall.pair]

variable [DecidableEq I]

/-- A call goes on, and touches no other transaction. -/
theorem consistent_update {id : Nat} (hn : Numbered s) (h : Consistent call original s)
    (hid : (s.pc i).id? = some id) (hpc : s'.pc = Function.update s.pc i pc)
    (hp : pc.id? = none ∨ pc.id? = some id)
    (hf : ∀ other, other ≠ id → s'.disk (.stage other) = s.disk (.stage other) ∧
      s'.disk (.backup other) = s.disk (.backup other))
    (hl : ∀ tree, s'.disk .ssl = some tree → Genuine call original tree)
    (hs : ∀ tree, pc.staged (call i) = some tree → s'.disk (.stage id) = some tree)
    (hb : ∀ tree, pc.MayRestore → s'.disk (.backup id) = some tree →
      Genuine call original tree) : Consistent call original s' := by
  have hsame : ∀ other, pc.id? = some other → other = id := by
    intro other ho
    obtain hp | hp := hp
    · exact absurd (hp.symm.trans ho) nofun
    · exact Option.some.inj (ho.symm.trans hp)
  have hother : ∀ j other, j ≠ i → (s.pc j).id? = some other → other ≠ id := by
    rintro j _ hj ho rfl
    exact hj (hn.distinct j i _ ho hid)
  refine ⟨hl, fun j other tree ho ht => ?_, fun j other tree ho hm ht => ?_⟩
  · rw [hpc] at ho ht
    by_cases hj : j = i
    · rw [hj, Function.update_self] at ho ht
      rw [hsame other ho]
      exact hs tree ht
    · rw [Function.update_of_ne hj] at ho ht
      rw [(hf other (hother j other hj ho)).1]
      exact h.stage j other tree ho ht
  · rw [hpc] at ho hm
    by_cases hj : j = i
    · rw [hj, Function.update_self] at ho hm
      rw [hsame other ho] at ht
      exact hb tree hm ht
    · rw [Function.update_of_ne hj] at ho hm
      rw [(hf other (hother j other hj ho)).2] at ht
      exact h.backup j other tree ho hm ht

/-- A call goes on without touching the disk. -/
theorem consistent_go (h : Consistent call original s)
    (hs : ∀ id tree, pc.id? = some id → pc.staged (call i) = some tree →
      (s.pc i).id? = some id ∧ (s.pc i).staged (call i) = some tree)
    (hb : ∀ id, pc.id? = some id → pc.MayRestore →
      (s.pc i).id? = some id ∧ (s.pc i).MayRestore) : Consistent call original (s.go i pc) := by
  refine ⟨h.ssl, fun j id tree hid ht => ?_, fun j id tree hid hm ht => ?_⟩
  · change (Function.update s.pc i pc j).id? = some id at hid
    change (Function.update s.pc i pc j).staged (call j) = some tree at ht
    by_cases hj : j = i
    · rw [hj, Function.update_self] at hid ht
      obtain ⟨hid', ht'⟩ := hs id tree hid ht
      exact h.stage i id tree hid' ht'
    · rw [Function.update_of_ne hj] at hid ht
      exact h.stage j id tree hid ht
  · change (Function.update s.pc i pc j).id? = some id at hid
    change (Function.update s.pc i pc j).MayRestore at hm
    by_cases hj : j = i
    · rw [hj, Function.update_self] at hid hm
      obtain ⟨hid', hm'⟩ := hb id hid hm
      exact h.backup i id tree hid' hm' ht
    · rw [Function.update_of_ne hj] at hid hm
      exact h.backup j id tree hid hm ht

/-- A call works on its own stage. -/
theorem consistent_put {id : Nat} (hn : Numbered s) (h : Consistent call original s)
    (hid : (s.pc i).id? = some id) (hp : pc.id? = some id) (hm : ¬ pc.MayRestore)
    (hs : ∀ tree', pc.staged (call i) = some tree' → tree = some tree') :
    Consistent call original ((s.go i pc).put (.stage id) tree) := by
  refine consistent_update hn h hid rfl (.inr hp) (fun other ho => ⟨?_, ?_⟩) (fun _ ht => ?_)
    (fun tree' ht => ?_) fun _ hm' => absurd hm' hm
  · have hne : ProfilePath.stage other ≠ .stage id := fun he => ho (ProfilePath.stage.inj he)
    exact s.put_disk hne tree
  · have hne : ProfilePath.backup other ≠ .stage id := nofun
    exact s.put_disk hne tree
  · have hne : ProfilePath.ssl ≠ .stage id := nofun
    exact h.ssl _ ((s.put_disk hne tree).symm.trans ht)
  · exact (Function.update_self ..).trans (hs tree' ht)

theorem consistent_step (hn : Numbered s) (h : Consistent call original s)
    (hs : SaveStep call s e s') : Consistent call original s' := by
  cases hs with
  | start hp => exact consistent_go h nofun nofun
  | profile hp => exact consistent_go h nofun nofun
  | @number _ i hp =>
    have hgo : Consistent call original (s.go i (.staging s.transactionId)) :=
      consistent_go h nofun nofun
    exact ⟨hgo.ssl, hgo.stage, hgo.backup⟩
  | @stage _ i id hp hd =>
    exact consistent_put hn h (by rw [hp]; rfl) rfl nofun fun _ ht => ht
  | @create material tree tree' _ i id hp hd ht =>
    refine consistent_put hn h (by rw [hp]; rfl) rfl nofun fun tree'' ht'' => ?_
    obtain ⟨tree₀, hstaged⟩ :
        ∃ tree₀, (SavePc.creating id material).staged (call i) = some tree₀ := by
      cases material with
      | cert | key => exact ⟨_, rfl⟩
    have hstage := h.stage i id tree₀ (by rw [hp]; rfl) (by rw [hp]; exact hstaged)
    cases hd.symm.trans hstage
    rw [← ht'', create_staged (call i) hstaged ht]
  | @write material written tree _ i id count hp hd hw hc =>
    refine consistent_put hn h (by rw [hp]; rfl) rfl nofun fun tree'' ht'' => ?_
    obtain ⟨tree₀, hstaged⟩ :
        ∃ tree₀, (SavePc.writing id material written).staged (call i) = some tree₀ := by
      cases material with
      | cert | key => exact ⟨_, rfl⟩
    have hstage := h.stage i id tree₀ (by rw [hp]; rfl) (by rw [hp]; exact hstaged)
    cases hd.symm.trans hstage
    rw [← ht'', write_staged (call i) count hstaged]
  | @written material _ i id hp =>
    refine consistent_go h (fun other tree ho ht => ?_) fun other ho hm => ?_
    · rw [hp]
      rw [written_staged] at ht
      cases material with
      | cert | key => exact ⟨ho, ht⟩
    · cases material with
      | cert | key => exact hm.elim
  | @found _ i id hp hd =>
    refine consistent_go h (fun other tree ho ht => ?_) nofun
    rw [hp]
    exact ⟨ho, ht⟩
  | @missing _ i id hp hd =>
    refine consistent_go h (fun other tree ho ht => ?_) nofun
    rw [hp]
    exact ⟨ho, ht⟩
  | @preserve disk _ i id hp hr =>
    have hid : (s.pc i).id? = some id := by
      rw [hp]
      rfl
    refine consistent_update hn h hid rfl (.inr rfl) (fun other ho => ⟨?_, ?_⟩) (fun tree ht => ?_)
      (fun tree ht => ?_) fun tree _ ht => ?_
    · exact Disk.rename_of_ne hr nofun nofun
    · exact Disk.rename_of_ne hr nofun fun he => ho (ProfilePath.backup.inj he)
    · exact absurd ((Disk.rename_source hr nofun).symm.trans ht) nofun
    · rw [← h.stage i id tree hid (by rw [hp]; exact ht)]
      exact Disk.rename_of_ne hr nofun nofun
    · exact h.ssl tree ((Disk.rename_target hr).symm.trans ht)
  | @install hadOldMaterial disk _ i id hp hr =>
    have hid : (s.pc i).id? = some id := by
      rw [hp]
      rfl
    refine consistent_update hn h hid rfl ?_ (fun other ho => ⟨?_, ?_⟩) (fun tree ht => ?_)
      (fun tree ht => ?_) fun tree hm _ => ?_
    · cases hadOldMaterial with
      | false => exact .inl rfl
      | true => exact .inr rfl
    · exact Disk.rename_of_ne hr (fun he => ho (ProfilePath.stage.inj he)) nofun
    · exact Disk.rename_of_ne hr nofun nofun
    · have hstage := h.stage i id (call i).pair hid (by rw [hp]; rfl)
      have hssl := (Disk.rename_target hr).trans hstage
      exact .inr ⟨i, Option.some.inj (ht.symm.trans hssl)⟩
    · cases hadOldMaterial with
      | false | true => cases ht
    · cases hadOldMaterial with
      | false | true => exact hm.elim
  | @restore disk _ i id hp hr =>
    have hid : (s.pc i).id? = some id := by
      rw [hp]
      rfl
    refine consistent_update hn h hid rfl (.inr rfl) (fun other ho => ⟨?_, ?_⟩) (fun tree ht => ?_)
      nofun nofun
    · exact Disk.rename_of_ne hr nofun nofun
    · exact Disk.rename_of_ne hr (fun he => ho (ProfilePath.backup.inj he)) nofun
    · exact h.backup i id tree hid (by rw [hp]; trivial) ((Disk.rename_target hr).symm.trans ht)
  | @removeStage error tree tree' _ i id hp hd hr =>
    have hput : Consistent call original ((s.go i (s.pc i)).put (.stage id) tree') :=
      consistent_put hn h (by rw [hp]; rfl) (by rw [hp]; rfl) (by rw [hp]; nofun)
        fun _ ht => by rw [hp] at ht; cases ht
    rw [Saves.go, Function.update_eq_self] at hput
    exact hput
  | @removeBackup tree tree' _ i id hp hd hr =>
    have hid : (s.pc i).id? = some id := by
      rw [hp]
      rfl
    refine consistent_update hn h hid (Function.update_eq_self i s.pc).symm (.inr hid)
      (fun other ho => ⟨?_, ?_⟩) (fun tree ht => ?_) (fun tree ht => ?_) fun tree hm _ => ?_
    · have hne : ProfilePath.stage other ≠ .backup id := nofun
      exact s.put_disk hne tree'
    · have hne : ProfilePath.backup other ≠ .backup id := fun he => ho (ProfilePath.backup.inj he)
      exact s.put_disk hne tree'
    · have hne : ProfilePath.ssl ≠ .backup id := nofun
      exact h.ssl tree ((s.put_disk hne tree').symm.trans ht)
    · rw [hp] at ht
      cases ht
    · rw [hp] at hm
      exact hm.elim
  | @fail pc _ i hf =>
    refine consistent_go h (fun id tree _ ht => ?_) fun id hid hm => ?_
    · exact absurd ((SavePc.failed_staged hf (call i)).symm.trans ht) nofun
    · obtain hnone | hsame := SavePc.failed_id? hf
      · exact absurd (hnone.symm.trans hid) nofun
      · exact ⟨hsame.symm.trans hid, SavePc.failed_mayRestore hf hm⟩

end Contents

section Saving
variable {I : Type} [DecidableEq I] {call : I → SaveCall} {disk : Disk ProfilePath Text UInt8}
  {transactionId : Nat} {s s' : Saves I}

theorem saves_consistent
    (h : Reaches (SaveStep call) (fun _ _ => True) (saves I disk transactionId) s) :
    Numbered s ∧ Consistent call (disk .ssl) s := by
  have hstart : Numbered (saves I disk transactionId) ∧
      Consistent call (disk .ssl) (saves I disk transactionId) :=
    ⟨⟨nofun, nofun⟩, fun _ ht => .inl ht, nofun, nofun⟩
  have hstep : ∀ (s : Saves I) (e : Unit) (s' : Saves I),
      Numbered s ∧ Consistent call (disk .ssl) s → True → SaveStep call s e s' →
        Numbered s' ∧ Consistent call (disk .ssl) s' :=
    fun _ _ _ ⟨hn, hc⟩ _ hs => ⟨numbered_step hn hs, consistent_step hn hc hs⟩
  exact h.invariant hstart hstep

/-- Only a rename that puts the call's own pair in place makes it installed. -/
theorem installed_step {original : Option Tree} (h : Consistent call original s)
    (hs : SaveStep call s e s') (hi : (s'.pc i).Installed) :
    (s.pc i).Installed ∨ s'.disk .ssl = some (call i).pair := by
  have hgo : ∀ j pc, (Function.update s.pc j pc i).Installed →
      i = j ∧ pc.Installed ∨ (s.pc i).Installed := by
    intro j pc hpc
    by_cases hj : i = j
    · rw [hj, Function.update_self] at hpc
      exact .inl ⟨hj, hpc⟩
    · rw [Function.update_of_ne hj] at hpc
      exact .inr hpc
  cases hs with
  | start hp | profile hp | number hp | stage hp hd | create hp hd ht | write hp hd hw hc
    | found hp hd | missing hp hd | preserve hp hr | restore hp hr =>
    exact .inl ((hgo _ _ hi).resolve_left fun hnew => hnew.2)
  | @written material _ j id hp =>
    refine .inl ((hgo _ _ hi).resolve_left fun hnew => ?_)
    cases material with
    | cert | key => exact hnew.2
  | @install hadOldMaterial disk _ j id hp hr =>
    obtain ⟨rfl, -⟩ | hold := hgo _ _ hi
    · have hstage := h.stage i id (call i).pair (by rw [hp]; rfl) (by rw [hp]; rfl)
      exact .inr ((Disk.rename_target hr).trans hstage)
    · exact .inl hold
  | removeStage hp hd hr | removeBackup hp hd hr => exact .inl hi
  | fail hf =>
    obtain ⟨rfl, hnew⟩ | hold := hgo _ _ hi
    · exact .inl (SavePc.failed_installed hf hnew)
    · exact .inl hold

theorem installed_before
    (h : Reaches (SaveStep call) (fun _ _ => True) (saves I disk transactionId) s)
    (hi : (s.pc i).Installed) :
    ∃ s₁, Reaches (SaveStep call) (fun _ _ => True) (saves I disk transactionId) s₁ ∧
      Reaches (SaveStep call) (fun _ _ => True) s₁ s ∧ s₁.disk .ssl = some (call i).pair := by
  induction h with
  | refl => exact hi.elim
  | tail h ha hs ih =>
    obtain hold | hnow := installed_step (saves_consistent h).2 hs hi
    · obtain ⟨s₁, hbefore, hafter, hpair⟩ := ih hold
      exact ⟨s₁, hbefore, hafter.tail ha hs, hpair⟩
    · exact ⟨_, h.tail ha hs, .refl, hnow⟩

/-- `ssl` is absent, what it was, or the complete pair of one call, and a call that returns Ok has
had its own pair there. -/
theorem saves_never_mix
    (h : Reaches (SaveStep call) (fun _ _ => True) (saves I disk transactionId) s) :
    (s.disk .ssl = none ∨ s.disk .ssl = disk .ssl ∨ ∃ i, s.disk .ssl = some (call i).pair) ∧
      ∀ i, s.pc i = .returned (.ok ()) →
        ∃ s₁, Reaches (SaveStep call) (fun _ _ => True) (saves I disk transactionId) s₁ ∧
          Reaches (SaveStep call) (fun _ _ => True) s₁ s ∧
          s₁.disk .ssl = some (call i).pair := by
  refine ⟨?_, fun i hi => installed_before h (by rw [hi]; trivial)⟩
  cases htree : s.disk .ssl with
  | none => exact .inl rfl
  | some tree =>
    obtain horiginal | ⟨i, rfl⟩ := (saves_consistent h).2.ssl tree htree
    · exact .inr (.inl horiginal.symm)
    · exact .inr (.inr ⟨i, rfl⟩)

def twoCalls : Bool → SaveCall
  | true => ⟨[1], [2]⟩
  | false => ⟨[3], [4]⟩

/-- A profile whose `ssl` has no certificate. -/
def keyOnly : Disk ProfilePath Text UInt8 := fun
  | .ssl => some (.dir [(keyFileName, .file [0])])
  | _ => none

/-- The second call moves the pair of the first away, which returns behind it. -/
theorem saves_never_mix_twoCalls :
    ∃ s, Reaches (SaveStep twoCalls) (fun _ _ => True) (saves Bool keyOnly 0) s ∧
      s.pc true = .returned (.ok ()) ∧ s.disk .ssl = some (twoCalls false).pair ∧
      (s.disk .ssl = none ∨ s.disk .ssl = keyOnly .ssl ∨
        ∃ i, s.disk .ssl = some (twoCalls i).pair) ∧
      ∃ s₁, Reaches (SaveStep twoCalls) (fun _ _ => True) (saves Bool keyOnly 0) s₁ ∧
        Reaches (SaveStep twoCalls) (fun _ _ => True) s₁ s ∧
        s₁.disk .ssl = some (twoCalls true).pair := by
  have h := @Reaches.refl _ Unit (SaveStep twoCalls) (fun _ _ => True) (saves Bool keyOnly 0)
  have h := h.tail trivial (.start (i := true) rfl)
  have h := h.tail trivial (.start (i := false) rfl)
  have h := h.tail trivial (.profile (i := true) rfl)
  have h := h.tail trivial (.profile (i := false) rfl)
  have h := h.tail trivial (.number (i := true) rfl)
  have h := h.tail trivial (.number (i := false) rfl)
  have h := h.tail trivial (.stage (i := false) rfl rfl)
  have h := h.tail trivial (.stage (i := true) rfl rfl)
  have h := h.tail trivial (.create (i := true) rfl rfl rfl)
  have h := h.tail trivial (.create (i := false) rfl rfl rfl)
  have h := h.tail trivial (.write (i := true) rfl rfl Nat.zero_lt_one (Nat.le_refl 1))
  have h := h.tail trivial (.write (i := false) rfl rfl Nat.zero_lt_one (Nat.le_refl 1))
  have h := h.tail trivial (.written (i := true) rfl)
  have h := h.tail trivial (.written (i := false) rfl)
  have h := h.tail trivial (.create (i := true) rfl rfl rfl)
  have h := h.tail trivial (.create (i := false) rfl rfl rfl)
  have h := h.tail trivial (.write (i := true) rfl rfl Nat.zero_lt_one (Nat.le_refl 1))
  have h := h.tail trivial (.write (i := false) rfl rfl Nat.zero_lt_one (Nat.le_refl 1))
  have h := h.tail trivial (.written (i := true) rfl)
  have h := h.tail trivial (.written (i := false) rfl)
  have h := h.tail trivial (.found (i := true) rfl nofun)
  have h := h.tail trivial (.found (i := false) rfl nofun)
  have h := h.tail trivial (.preserve (i := true) rfl rfl)
  have h := h.tail trivial (.install (i := true) rfl rfl)
  have h := h.tail trivial (.preserve (i := false) rfl rfl)
  have h := h.tail trivial (.install (i := false) rfl rfl)
  have h := h.tail trivial (.fail (i := true) rfl)
  obtain ⟨hssl, hinstalled⟩ := saves_never_mix h
  exact ⟨_, h, rfl, rfl, hssl, hinstalled true rfl⟩

end Saving

end Dhttp.Home
