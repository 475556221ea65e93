import Dhttp.Home.Names
import Dhttp.Lib.FileTrees
import Dhttp.Lib.Interleaving

namespace Dhttp.Home
open Dhttp.Lib
set_option autoImplicit true

abbrev Bytes := List UInt8

abbrev Tree := FileTree Text UInt8

def certFileName : Text := "fullchain.crt".toList

def keyFileName : Text := "privkey.pem".toList

/-- The paths in the profile's directory: `ssl`, the stage and the backup of a transaction, and
whatever else is there. -/
inductive ProfilePath where
  | ssl
  | stage (id : Nat)
  | backup (id : Nat)
  | other (name : Text)
  deriving DecidableEq

inductive Material where
  | cert
  | key
  deriving DecidableEq

def Material.fileName : Material → Text
  | cert => certFileName
  | key => keyFileName

inductive SaveIdentityError where
  | createIdentityDir
  | createStageDir (path : ProfilePath)
  | metadata (path : ProfilePath)
  | preserveOld (source target : ProfilePath)
  | create (path : ProfilePath) (name : Text)
  | write (path : ProfilePath) (name : Text)
  | commit (path : ProfilePath)
  | rollback (source target : ProfilePath)
  deriving DecidableEq

/-- What a call saves. -/
structure SaveCall where
  cert : Bytes
  key : Bytes

def SaveCall.contents (call : SaveCall) : Material → Bytes
  | .cert => call.cert
  | .key => call.key

/-- The directory with the complete certificate and key of a call. -/
def SaveCall.pair (call : SaveCall) : Tree :=
  .dir [(certFileName, .file call.cert), (keyFileName, .file call.key)]

/-- The operation that a call is about to make, with its transaction id. -/
inductive SavePc where
  | idle
  | creatingProfile
  | numbering
  | staging (id : Nat)
  | creating (id : Nat) (material : Material)
  | writing (id : Nat) (material : Material) (written : Nat)
  | inspecting (id : Nat)
  | preserving (id : Nat)
  | installing (id : Nat) (hadOldMaterial : Bool)
  | restoring (id : Nat)
  | removingStage (id : Nat) (error : SaveIdentityError)
  | removingBackup (id : Nat)
  | returned (result : Except SaveIdentityError Unit)

namespace SavePc

/-- Where a call goes on when its operation fails. What `remove_dir_all` returns is ignored. -/
def failed : SavePc → Option SavePc
  | idle | numbering | returned _ => none
  | creatingProfile => returned (.error .createIdentityDir)
  | staging id => returned (.error (.createStageDir (.stage id)))
  | creating id material => removingStage id (.create (.stage id) material.fileName)
  | writing id material _ => removingStage id (.write (.stage id) material.fileName)
  | inspecting id => removingStage id (.metadata .ssl)
  | preserving id => removingStage id (.preserveOld .ssl (.backup id))
  | installing id false => removingStage id (.commit .ssl)
  | installing id true => restoring id
  | restoring id => removingStage id (.rollback (.backup id) .ssl)
  | removingStage _ error => returned (.error error)
  | removingBackup _ => returned (.ok ())

/-- The file is complete. -/
def written (id : Nat) : Material → SavePc
  | .cert => creating id .key
  | .key => inspecting id

/-- The new material is installed. -/
def installed (id : Nat) (hadOldMaterial : Bool) : SavePc :=
  if hadOldMaterial then removingBackup id else returned (.ok ())

end SavePc

/-- The calls, the profile's directory and the counter of the transactions. -/
structure Saves (I : Type) where
  pc : I → SavePc
  disk : Disk ProfilePath Text UInt8
  transactionId : Nat

def saves (I : Type) (disk : Disk ProfilePath Text UInt8) (transactionId : Nat) : Saves I where
  pc _ := .idle
  disk := disk
  transactionId := transactionId

section Steps
variable {I : Type} [DecidableEq I]

namespace Saves

def go (s : Saves I) (i : I) (pc : SavePc) : Saves I :=
  { s with pc := Function.update s.pc i pc }

def put (s : Saves I) (path : ProfilePath) (tree : Option Tree) : Saves I :=
  { s with disk := Function.update s.disk path tree }

end Saves

/-- One step of a call of `save_identity`: an operation succeeds, or fails with no effect. -/
inductive SaveStep (call : I → SaveCall) : Saves I → Unit → Saves I → Prop
  | start {s : Saves I} {i : I} (hp : s.pc i = .idle) :
    SaveStep call s () (s.go i .creatingProfile)
  | profile {s : Saves I} {i : I} (hp : s.pc i = .creatingProfile) :
    SaveStep call s () (s.go i .numbering)
  | number {s : Saves I} {i : I} (hp : s.pc i = .numbering) :
    SaveStep call s () { s.go i (.staging s.transactionId) with
      transactionId := s.transactionId + 1 }
  | stage {s : Saves I} {i : I} {id : Nat} (hp : s.pc i = .staging id)
      (hd : s.disk (.stage id) = none) :
    SaveStep call s () ((s.go i (.creating id .cert)).put (.stage id) (some (.dir [])))
  | create {s : Saves I} {i : I} {id : Nat} (hp : s.pc i = .creating id material)
      (hd : s.disk (.stage id) = some tree) (ht : tree.create material.fileName = some tree') :
    SaveStep call s () ((s.go i (.writing id material 0)).put (.stage id) (some tree'))
  /-- More bytes reach the file. -/
  | write {s : Saves I} {i : I} {id count : Nat} (hp : s.pc i = .writing id material written)
      (hd : s.disk (.stage id) = some tree) (hw : written < count)
      (hc : count ≤ ((call i).contents material).length) :
    SaveStep call s () ((s.go i (.writing id material count)).put (.stage id)
      (some (tree.write material.fileName (((call i).contents material).take count))))
  /-- The file is flushed and synchronized. -/
  | written {s : Saves I} {i : I} {id : Nat}
      (hp : s.pc i = .writing id material ((call i).contents material).length) :
    SaveStep call s () (s.go i (.written id material))
  | found {s : Saves I} {i : I} {id : Nat} (hp : s.pc i = .inspecting id)
      (hd : s.disk .ssl ≠ none) : SaveStep call s () (s.go i (.preserving id))
  | missing {s : Saves I} {i : I} {id : Nat} (hp : s.pc i = .inspecting id)
      (hd : s.disk .ssl = none) : SaveStep call s () (s.go i (.installing id false))
  | preserve {s : Saves I} {i : I} {id : Nat} (hp : s.pc i = .preserving id)
      (hr : Disk.rename s.disk .ssl (.backup id) = some disk) :
    SaveStep call s () { s.go i (.installing id true) with disk := disk }
  | install {s : Saves I} {i : I} {id : Nat} (hp : s.pc i = .installing id hadOldMaterial)
      (hr : Disk.rename s.disk (.stage id) .ssl = some disk) :
    SaveStep call s () { s.go i (.installed id hadOldMaterial) with disk := disk }
  | restore {s : Saves I} {i : I} {id : Nat} (hp : s.pc i = .restoring id)
      (hr : Disk.rename s.disk (.backup id) .ssl = some disk) :
    SaveStep call s () { s.go i (.removingStage id (.commit .ssl)) with disk := disk }
  | removeStage {s : Saves I} {i : I} {id : Nat} (hp : s.pc i = .removingStage id error)
      (hd : s.disk (.stage id) = some tree) (hr : tree.Removes tree') :
    SaveStep call s () (s.put (.stage id) tree')
  | removeBackup {s : Saves I} {i : I} {id : Nat} (hp : s.pc i = .removingBackup id)
      (hd : s.disk (.backup id) = some tree) (hr : tree.Removes tree') :
    SaveStep call s () (s.put (.backup id) tree')
  /-- An operation fails, or a removal comes to its end. -/
  | fail {s : Saves I} {i : I} (hf : (s.pc i).failed = some pc) :
    SaveStep call s () (s.go i pc)

end Steps

end Dhttp.Home
