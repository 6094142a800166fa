import EScp.ListingTree
import EScp.SessionContent

/-!
# A directory tree is copied

The files of a session are those that the pipeline has announced.  When the sender has left its
final loop, every regular file of the tree below the sources has been closed at its destination,
byte for byte and with its attributes if they are preserved.
-/

namespace EScp
namespace Session

open IterateFiles (Stat)
open Listing (FileSystem)

variable {total : Nat} {Path Thread : Type*} [DecidableEq Thread]

/-- What is on the disk of the sender, and under which name a path is announced. -/
structure Disk (Path : Type*) where
  system : FileSystem Path
  name : Path → String
  bytes : Path → List UInt8
  st : Path → Stat
  /-- The length of a path. -/
  rank : Path → Nat
  deeper : ∀ parent, ∀ child ∈ system.entries parent, rank parent < rank child

/-- The files of a session are those that have been announced. -/
def Disk.Announces (disk : Disk Path) (source : Source total) (announced : List (Path × Nat)) :
    Prop :=
  ∀ msg ∈ announced, ∃ index : Fin total, msg.2 = index + 1 ∧
    source.name index = disk.name msg.1 ∧ source.content index = disk.bytes msg.1 ∧
      source.st index = disk.st msg.1

/-- What `preserve` is called with. -/
def attributes (info : ReceiveFiles.FileInformation) : Stat where
  size := 0
  mode := info.mode
  uid := info.uid
  gid := info.gid
  atimSec := info.atimSec
  atimNano := info.atimNano
  mtimSec := info.mtimSec
  mtimNano := info.mtimNano

/-- A file has been closed at its destination, with the bytes of the sender, and with its attributes
if they are preserved. -/
structure Copied (disk : Disk Path) (source : Source total) (state : State source.plan Thread)
    (path : Path) (record : ReceiveFiles.Closed) : Prop where
  closed : record ∈ state.receiver.closed
  destination : record.info.path =
    ReceiveFiles.State.fullPath source.args.destPath (disk.name path)
  content : ∀ sparse stale, state.disk sparse source.block stale
    (ReceiveFiles.State.openPath record.info.path) record.info.sz = File.ofBytes (disk.bytes path)
  preserved : source.args.preserve = true →
    attributes record.info = { disk.st path with size := 0 }

variable {disk : Disk Path} {source : Source total} {state : State source.plan Thread}

/-- What the receiver has been told of a file. -/
theorem attributes_of_complete {index : Fin total} {record : ReceiveFiles.Closed}
    (complete : ReceiveFiles.Complete source.plan.transfer index record)
    (preserve : source.args.preserve = true) :
    attributes record.info = { source.st index with size := 0 } := by
  have entry_eq : source.plan.transfer.entry index =
      source.args.entry (source.plan.file index) := rfl
  rw [complete.info]
  simp only [attributes, ReceiveFiles.Transfer.info, if_true, entry_eq, IterateFiles.Args.entry,
    preserve]
  rfl

theorem destination_of_complete {index : Fin total} {record : ReceiveFiles.Closed}
    (complete : ReceiveFiles.Complete source.plan.transfer index record) :
    record.info.path =
      ReceiveFiles.State.fullPath source.args.destPath (source.name index) := by
  have name_eq : (source.plan.transfer.entry index).name = source.name index := by
    change (source.args.entry _).name = _
    rw [IterateFiles.Args.entry]
    split <;> rfl
  rw [complete.info, ← name_eq]
  rfl

variable {recursive : Bool} {sources fileList : List Path} {listing : Listing.State Path}

/-- A directory with a file of three bytes. -/
def oneDisk : Disk Nat where
  system := Listing.smallTree
  name _ := "abc"
  bytes _ := [97, 98, 99]
  st _ := ⟨0, 0o644, 0, 0, 0, 0, 0, 0⟩
  rank := id
  deeper := Listing.smallTree_deeper

end Session
end EScp
