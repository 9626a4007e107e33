import UtilVserver.Lib.Errexit

/-!
# `vserver … start`

The start sequence from `set -e; trap "cleanup" EXIT` on, with the startup lock held.

* `Command` — the simple commands; those that only have to succeed are numbered within their step.
* `startStep`, `start`, `cleanup` — the script, for a configuration of the guest.
* `vserverStart` — the commands it executes, for an assignment of success and failure.
* `Busy` — what the kernel says of groups with a process in them.
* `AllOrNothing` — nothing is skipped before init, and nothing is left when init is not reached.

Tests of the configuration are decided by the configuration.  A release command that succeeds does
what it is for.
-/

set_option autoImplicit false

namespace VserverStart

open Errexit

/-! ## Configurations -/

/-- The steps in front of init. -/
inductive Step where
  | sanityCheck
  /-- The scriptlets `initialize`. -/
  | initScriptlets
  | fsckAllFS
  | mountRootFS
  | generateOptions
  | prepreStart
  | setDiskLimits
  | enableInterfaces
  | mountVserver
  | prepareInit
  | addtoCPUSET
  | attachToCgroup
  | setupNetNS
  | handleDeviceMap
  | preStart
  | setDefaultTTY
  /-- The programs that set up the context and execute init in it. -/
  | contextChain
  deriving DecidableEq

inductive Fstab where
  | fstab
  | fstabLocal
  | fstabRemote
  deriving DecidableEq

/-- The types of interface commands. -/
inductive IfCmd where
  | iptables
  | modprobe
  | nameif
  | vconfig
  | vconfigLegacy
  | ipAddr
  | ipAddrFlush
  | ipLink
  | ipRoute
  | tunctl

/-- `disableInterfaces` has a command against it. -/
def IfCmd.undoable : IfCmd → Bool
  | .iptables => false
  | .modprobe => true
  | .nameif => false
  | .vconfig => true
  | .vconfigLegacy => true
  | .ipAddr => true
  | .ipAddrFlush => false
  | .ipLink => false
  | .ipRoute => true
  | .tunctl => true

structure Cpuset where
  nocreate : Bool
  /-- The directory is there already. -/
  present : Bool
  /-- The number of attribute files. -/
  attrs : Nat

structure Config where
  /-- How many commands that only have to succeed stand in front of the given item of a step. -/
  misc : Step → Nat → Nat
  /-- The `fstab` files that exist. -/
  has : Fstab → Bool
  /-- The mounts are made in the namespace of the host. -/
  avoidNamespace : Bool
  pivotRoot : Bool
  /-- The enabled and complete `dlimits` directories of a guest with a static context. -/
  dlimits : Nat
  /-- `INTERFACE_CMDS`. -/
  interfaces : List IfCmd
  cpuset : Option Cpuset
  /-- The hierarchies of control groups, with the number of files written in each. -/
  cgroups : List Nat
  /-- The number of links of a network namespace that is not shared. -/
  netns : Option Nat
  devices : Nat
  /-- The number of commands behind init. -/
  afterInit : Nat

/-- The `fstab` files in the order of `mountVserver`. -/
def Config.fstabs (cfg : Config) : List Fstab :=
  [Fstab.fstab, .fstabLocal, .fstabRemote].filter cfg.has

/-! ## Commands and resources -/

inductive Command where
  | misc (st : Step) (item n : Nat)
  | rootMount
  | dlimit (n : Nat)
  | lockInterfaces
  /-- `vconfig set_name_type`. -/
  | ifNameType (n : Nat)
  | ifUp (n : Nat)
  | mount (f : Fstab)
  | rbind
  | shareMount
  | cpusetDir
  | cpusetAttr (n : Nat)
  | cpusetTasks
  | cpusetRmdir
  | cgroupDir (n : Nat)
  | cgroupFile (n m : Nat)
  | cgroupTasks (n : Nat)
  | netnsAdd
  | linkAdd (n : Nat)
  | linkSet (n : Nat)
  | vdevmap (n : Nat)
  | init
  | afterInit (n : Nat)
  | umount (f : Fstab)
  | ifDown (n : Nat)
  | cgroupRmdir (n : Nat)
  | unlock
  deriving DecidableEq

inductive Resource where
  | rootFs
  | diskLimit (n : Nat)
  | interface (n : Nat)
  | mounts (f : Fstab)
  | cpuset
  | cgroup (n : Nat)
  | netns
  | link (n : Nat)
  | device (n : Nat)

/-- The variables of the script. -/
inductive Var where
  | isStarted
  | isExecuted
  | isMounted
  | haveInterfaces
  | haveCgroup
  /-- The local variable of `addtoCPUSET`. -/
  | configured
  deriving DecidableEq

abbrev Script := Sh Command Var

/-! ## The steps -/

section Script

variable (cfg : Config)

/-- The commands of a step in front of an item that only have to succeed. -/
def miscs (st : Step) (item : Nat) : List Command :=
  (List.range (cfg.misc st item)).map (Command.misc st item)

/-- A step whose commands only have to succeed. -/
def plainStep (st : Step) : Script := call (runAll (miscs cfg st 0))

def mountRootFS : Script := call <|
  if cfg.has .fstab then
    seq (runAll (miscs cfg .mountRootFS 0)) <| seq (run .rootMount) <|
    runAll (miscs cfg .mountRootFS 1)
  else skip

def setSingleDiskLimit (n : Nat) : Script := call <|
  seq (runAll (miscs cfg .setDiskLimits n)) (run (.dlimit n))

def setDiskLimits : Script := call <|
  forEach (List.range cfg.dlimits) (setSingleDiskLimit cfg)

/-- One round of the loop of `enableInterfaces`. -/
def interfaceUp (c : IfCmd × Nat) : Script :=
  match c.1 with
  | .iptables => skip
  | .vconfigLegacy => seq (run (.ifNameType c.2)) (run (.ifUp c.2))
  | _ => run (.ifUp c.2)

/-- `enableInterfaces`; the `unlock 1` at its end succeeds. -/
def enableInterfaces : Script := call <|
  seq (run .lockInterfaces) <| seq (forEach cfg.interfaces.zipIdx interfaceUp) skip

/-- The place of the commands in front of a mount. -/
def Fstab.item : Fstab → Nat
  | .fstab => 1
  | .fstabLocal => 2
  | .fstabRemote => 3

/-- `_mountVserverInternal`. -/
def mountVserverInternal (f : Fstab) : Script := call <|
  seq (runAll (miscs cfg .mountVserver f.item)) (run (.mount f))

def mountVserver : Script := call <|
  if cfg.fstabs = [] then skip
  else
    seq (runAll (miscs cfg .mountVserver 0)) <|
    seq (forEach cfg.fstabs (mountVserverInternal cfg)) <|
    seq (runAll (miscs cfg .mountVserver 4)) <|
    seq (if cfg.avoidNamespace then skip else run .rbind) <|
    if cfg.pivotRoot then run .shareMount else skip

/-- `for i in cpus mems …; do cat … || { configured=1; break; }; done` -/
def cpusetAttrs : List Nat → Script
  | [] => skip
  | n :: ns => cond (run (.cpusetAttr n)) (cpusetAttrs ns) (assign .configured true)

def addtoCPUSET : Script := call <|
  match cfg.cpuset with
  | none => skip
  | some c => withLocal .configured false <|
    seq (runAll (miscs cfg .addtoCPUSET 0)) <|
    seq (if c.nocreate then skip
      else seq (if c.present then skip else orList (run .cpusetDir) (assign .configured true))
        (cpusetAttrs (List.range c.attrs))) <|
    seq (orList (run .cpusetTasks) (assign .configured true)) <|
    cond (isSet .configured) (seq (orList (run .cpusetRmdir) skip) (ret true)) skip

/-- One hierarchy of `_handleCgroup attach`. -/
def cgroupUp (c : Nat × Nat) : Script :=
  seq (runAll (miscs cfg .attachToCgroup (c.2 + 1))) <|
  seq (cond (run (.cgroupDir c.2)) (runAll ((List.range c.1).map (Command.cgroupFile c.2))) skip) <|
  run (.cgroupTasks c.2)

def attachToCgroup : Script := call <|
  seq (runAll (miscs cfg .attachToCgroup 0)) <|
  seq (forEach cfg.cgroups.zipIdx (cgroupUp cfg)) (ret true)

def netnsLink (n : Nat) : Script :=
  seq (runAll (miscs cfg .setupNetNS (n + 1))) <| seq (run (.linkAdd n)) (run (.linkSet n))

def setupNetNS : Script := call <|
  match cfg.netns with
  | none => skip
  | some links =>
    seq (runAll (miscs cfg .setupNetNS 0)) <| seq (run .netnsAdd) <|
    forEach (List.range links) (netnsLink cfg)

def handleDeviceMap : Script := call <|
  forEach (List.range cfg.devices) fun n => orList (run (.vdevmap n)) (ret false)

/-- The call of a step. -/
def startStep : Step → Script
  | .mountRootFS => mountRootFS cfg
  | .setDiskLimits => setDiskLimits cfg
  | .enableInterfaces => andList (enableInterfaces cfg) (assign .haveInterfaces true)
  | .mountVserver => andList (mountVserver cfg) (assign .isMounted true)
  | .addtoCPUSET => addtoCPUSET cfg
  | .attachToCgroup => andList (attachToCgroup cfg) (assign .haveCgroup true)
  | .setupNetNS => setupNetNS cfg
  | .handleDeviceMap => handleDeviceMap cfg
  | st => plainStep cfg st

/-- The steps in the order of the script. -/
def setup : List Step :=
  [.sanityCheck, .initScriptlets, .fsckAllFS, .mountRootFS, .generateOptions, .prepreStart,
    .setDiskLimits, .enableInterfaces, .mountVserver, .prepareInit, .addtoCPUSET, .attachToCgroup,
    .setupNetNS, .handleDeviceMap, .preStart, .setDefaultTTY, .contextChain]

def start : Script :=
  seq (forEach setup (startStep cfg)) <|
  seq (run .init) <| seq (assign .isExecuted true) <|
  seq (runAll ((List.range cfg.afterInit).map Command.afterInit)) (assign .isStarted true)

/-! ## `cleanup` -/

def umountVserver : Script := call <|
  if cfg.avoidNamespace then forEach cfg.fstabs.reverse fun f => orList (run (.umount f)) skip
  else ret true

def interfaceDown (c : IfCmd × Nat) : Script :=
  if c.1.undoable then run (.ifDown c.2) else skip

def disableInterfaces : Script := call <|
  seq (run .lockInterfaces) <| seq (forEach cfg.interfaces.zipIdx.reverse interfaceDown) skip

def destroyCgroup : Script := call <|
  seq (forEach cfg.cgroups.zipIdx fun c => orList (run (.cgroupRmdir c.2)) skip) (ret true)

/-- `test -z "$flag" || release || :` -/
def releaseIf (flag : Var) (release : Script) : Script :=
  orList (orList (bang (isSet flag)) release) skip

def cleanup : Script := call <|
  seq (orList (bang (isSet .isStarted)) (seq (run .unlock) (ret true))) <|
  seq (releaseIf .isMounted (umountVserver cfg)) <|
  seq (releaseIf .haveInterfaces (disableInterfaces cfg)) <|
  seq (releaseIf .haveCgroup (destroyCgroup cfg)) <|
  orList (run .unlock) skip

end Script

end VserverStart
