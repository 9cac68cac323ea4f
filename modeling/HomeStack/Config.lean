import HomeStack.Lib.Text

/-! The server's configuration (`hs_model::config::Config`). -/

namespace HomeStack

structure Network where
  addrPrefix : Text
  cidr : Nat
  gateway : Text
  dns : List Text
  deriving DecidableEq, Repr

structure CloudInit where
  snippetStorage : Text
  snippetDir : Text
  deriving DecidableEq, Repr

structure User where
  name : Text
  uid : Nat
  gid : Nat
  deriving DecidableEq, Repr

structure Config where
  node : Text
  goldVmid : Option Nat
  storageLayouts : List (Text × List Text)
  rootDisk : Text
  homeDisk : Text
  defaultHomeSize : Text
  network : Network
  cloudInit : CloudInit
  user : User
  repoOwner : Option Text
  deriving DecidableEq, Repr

/-- One configuration, for concrete runs. -/
def sampleConfig : Config where
  node := "pve1"
  goldVmid := some 9000
  storageLayouts := [("homestack-storage-1", ["local"])]
  rootDisk := "scsi0"
  homeDisk := "scsi1"
  defaultHomeSize := "32G"
  network := ⟨"10.0.0", 24, "10.0.0.1", []⟩
  cloudInit := ⟨"local", "/var/lib/vz/snippets"⟩
  user := ⟨"dev", 1000, 1000⟩
  repoOwner := none

end HomeStack
