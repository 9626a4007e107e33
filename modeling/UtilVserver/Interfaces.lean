import UtilVserver.FileCfg
import UtilVserver.Lib.Attachments

/-!
# The interfaces of a guest

* `processSingleInterface` — the commands for one directory below `interfaces`.
* `generateInterfaceOptions` — the commands for all of them.
* `enableInterfaces` — the commands in their order.
* `disableInterfaces` — the opposite commands in the opposite order; no caller has `set -e` in
  force, so that a failure changes nothing.

What the commands act on are the devices of the host, and the addresses and routes on them.

Principal results: `disableInterfaces_enableInterfaces` (when stopping undoes starting) and
`nodev_cmds` (nothing is done for an interface that is marked `nodev`).
-/

set_option autoImplicit false

namespace Interfaces

open CString FileCfg Attachments

/-! ## The network of the host -/

inductive Kind where
  | physical | vlan | tun | tap | dummy
  deriving DecidableEq

inductive Item where
  | address (dev addr : Text) (peer : Option Text)
  | route (dest dev : Text)
  deriving DecidableEq

def Item.dev : Item → Text
  | .address dev _ _ => dev
  | .route _ dev => dev

/-- An address has a label, which is the name of its device by default. -/
abbrev Net := System Text Kind Item Text Item.dev

abbrev Object := Obj Text Kind Item Text

abbrev Removal := Spec Text Kind Item Text

/-! ## The commands -/

inductive Cmd where
  | IPTABLES (addr : Text) (label : Option Text) (nContext extip : Text)
  | MODPROBE (mod name : Text)
  | NAMEIF (dev mac : Text)
  | VCONFIG (name link id nameType : Text)
  | VCONFIG_LEGACY (name link id nameType : Text)
  | IP_ADDR (addr : Text) (broadcast label : Option Text) (dev : Text) (peer : Option Text)
  | IP_ADDR_FLUSH (dev : Text)
  | IP_LINK (args : List Text)
  | IP_ROUTE (dest dev : Text)
  | TUNCTL (dev : Text) (options : List Text)
  | unknown (type : Text) (args : List Text)

inductive VconfigOp where
  | VCONFIG | VCONFIG_LEGACY

/-- The files of a directory. -/
abbrev Files := Text → Option Text

/-- What the scripts read besides the directories of the interfaces, and the programs they call. -/
structure Env where
  /-- `<vserver-directory>/interfaces` -/
  parent : Files
  /-- `$__CONFDIR/.defaults/interfaces` -/
  defaults : Files
  nContext : Text
  /-- `$VCONFIGOP`; the installed variable is called `_VCONFIGOP`. -/
  vconfigop : Option VconfigOp
  /-- `/proc/net/vlan` is there. -/
  procNetVlan : Bool
  /-- The exit code of `$_MASK2PREFIX`. -/
  mask2prefix : Text → Nat
  generateMac : Text → Text → Option Text
  /-- The name of the device that `vconfig add` creates, by device, id and name type. -/
  vconfigName : Text → Text → Text → Option Text
  /-- The name of the device of a module in the end. -/
  dummyName : Text → Text

structure Iface where
  basename : Text
  isDir : Bool
  files : Files

structure Options where
  interfaces : List Text
  cmds : List Cmd

/-- `test -e` -/
def testE (dir : Files) (file : String) : Bool := (dir file.toList).isSome

/-- `for _giv_i; do read _giv_tmp <"$_giv_i/$_giv_val" && break || :; done`: a line without a
newline is read, but the loop goes on. -/
def readFrom (val : String) : List Files → Text → Text
  | [], tmp => tmp
  | dir :: dirs, tmp =>
    match dir val.toList with
    | none => readFrom val dirs tmp
    | some content =>
      if '\n' ∈ content then trim (content.takeWhile (· ≠ '\n'))
      else readFrom val dirs (trim content)

def getInterfaceValue (val : String) (dflt : Text) (dirs : List Files) : Text :=
  if readFrom val dirs [] = [] then dflt else readFrom val dirs []

def transformMask2Prefix (env : Env) (pfx mask : Text) : Text :=
  if pfx ≠ [] then pfx
  else if env.mask2prefix mask = 0 then []
  else Nat.toDigits 10 (env.mask2prefix mask)

/-- `$ip${prefix:+/$prefix}` -/
def withPrefix (ip pfx : Text) : Text := if pfx = [] then ip else ip ++ '/' :: pfx

/-- `${name:+…}` -/
def whenSet (name : Text) (value : Text) : Option Text := if name = [] then none else some value

/-- Name, device, id and name type; `panic` ends the subshell. -/
def getVLANInfo (dev : Text) : Option (Text × Text × Text × Text) :=
  let link := dev.takeWhile (· ≠ '.')
  let id := dev.rtakeWhile (· ≠ '.')
  if "vlan".toList.isPrefixOf dev then none
  else if 5 ≤ dev.length ∧ charAt dev (dev.length - 5) = '.' then
    some (dev, link, id, "DEV_PLUS_VID".toList)
  else if '.' ∈ dev then some (dev, link, id, "DEV_PLUS_VID_NO_PAD".toList)
  else none

def getTunInfo (env : Env) (iface : Files) : Option (List Text) :=
  let given (option file : String) : List Text :=
    if testE iface file then [option.toList, readFrom file [iface] []] else []
  if ¬ testE iface "tun" ∧ ¬ testE iface "tap" then none
  else some ((if testE iface "tun" then ["--tun".toList] else []) ++
    (if testE iface "tap" then ["--tap".toList] else []) ++
    (if testE iface "nocsum" then ["--~checksum".toList] else []) ++
    (if testE iface "shared" then [] else ["--nid-failure-ok".toList, env.nContext]) ++
    given "--uid" "uid" ++ given "--gid" "gid" ++ given "--linktype" "linktype")

/-- The device is to be created if it is a vlan. -/
def wantsVlandev (env : Env) (iface : Files) : Bool :=
  testE iface "vlandev" ||
    testE env.parent "vlandev" && !testE iface "novlandev" ||
    testE env.defaults "vlandev" && !testE iface "novlandev" && !testE env.parent "novlandev"

/-- `_addInterfaceCmd $VCONFIGOP $vlan_info` -/
def vconfigCmd (env : Env) : Text × Text × Text × Text → Cmd
  | (name, link, id, nameType) =>
    match env.vconfigop with
    | some .VCONFIG => .VCONFIG name link id nameType
    | some .VCONFIG_LEGACY => .VCONFIG_LEGACY name link id nameType
    | none => .unknown name [link, id, nameType]

def vlanCmds (env : Env) (iface : Files) (dev : Text) : Option (List Cmd) :=
  if wantsVlandev env iface then
    match getVLANInfo dev with
    | none => some []
    | some info => if env.procNetVlan then some [vconfigCmd env info] else none
  else some []

def directCmds (env : Env) (iface : Files) (ip pfx bcast name dev peer : Text) : List Cmd :=
  let up := if testE iface "down" then [] else ["up".toList]
  let useBcast := if ':' ∈ ip then none else some (if bcast = [] then ['+'] else bcast)
  ((getTunInfo env iface).toList.map fun info => .TUNCTL dev info) ++
    [.IP_ADDR (withPrefix ip pfx) useBcast (whenSet name (dev ++ ':' :: name)) dev
        (whenSet peer peer),
      .IP_LINK (dev :: up)]

def indirectCmds (env : Env) (iface : Iface) (ip pfx name dev mac extip : Text) :
    Option (List Cmd) :=
  if env.nContext = [] then none
  else
    match if mac = [] then some [] else env.generateMac iface.basename env.nContext with
    | none => none
    | some mac =>
      some ([.MODPROBE "dummy".toList dev,
        .IP_LINK ["dev".toList, "dummy0".toList, "address".toList, mac],
        .NAMEIF dev mac,
        .IP_ADDR (withPrefix ip pfx) none none dev none] ++
        if extip = [] then []
        else [.IPTABLES (withPrefix ip pfx) (whenSet name (dev ++ ':' :: name)) env.nContext extip])

def processSingleInterface (env : Env) (iface : Iface) : Option Options :=
  let own (val : String) := getInterfaceValue val [] [iface.files]
  let inherited (val : String) := getInterfaceValue val [] [iface.files, env.parent]
  let ip := own "ip"
  let dev := inherited "dev"
  if ip = [] then none
  else if dev = [] ∧ ¬ testE iface.files "nodev" then none
  else
    let pfx := transformMask2Prefix env (inherited "prefix") (inherited "mask")
    let interfaces := [withPrefix ip pfx]
    if testE iface.files "nodev" || testE iface.files "only_ip" then some ⟨interfaces, []⟩
    else
      match vlanCmds env iface.files dev with
      | none => none
      | some vlan =>
        if ¬ testE iface.files "indirect" then
          some ⟨interfaces, vlan ++
            directCmds env iface.files ip pfx (inherited "bcast") (own "name") dev (own "peer")⟩
        else
          match indirectCmds env iface ip pfx (own "name") dev (own "mac") (inherited "extip") with
          | none => none
          | some cmds => some ⟨interfaces, vlan ++ cmds⟩

/-- An IPv6 address has no label. -/
def labelOf (addr : Text) (label : Option Text) : Option Text :=
  if ':' ∈ addr then none else label

/-- The last of `--tun` and `--tap` counts. -/
def tunKind (options : List Text) : Kind := if "--tap".toList ∈ options then .tap else .tun

/-- `strncpy(ifr.ifr_name, interface, IFNAMSIZ); ifr.ifr_name[IFNAMSIZ-1] = '\0';` -/
def ifrName (interface : Text) : Text := interface.take 15

/-- What the command adds.  A vlan device needs the device below it; an option of `tunctl` without
a value takes the name of the device instead. -/
def creates (env : Env) (net : Net) : Cmd → Option Object
  | .MODPROBE mod name => some (.dev .dummy (env.dummyName (if name = [] then mod else name)))
  | .VCONFIG name link _ _ => if net.dev link = none then none else some (.dev .vlan name)
  | .VCONFIG_LEGACY _ link id nameType =>
    if net.dev link = none then none
    else (env.vconfigName link id nameType).map fun name => .dev .vlan name
  | .IP_ADDR addr _ label dev peer =>
    some (.att (.address dev addr peer) ((labelOf addr label).getD dev))
  | .IP_ROUTE dest dev => some (.att (.route dest dev) [])
  | .TUNCTL dev options =>
    if [] ∈ options then none else some (.dev (tunKind options) (ifrName dev))
  | .IPTABLES .. | .NAMEIF .. | .IP_ADDR_FLUSH _ | .IP_LINK _ | .unknown .. => none

/-- `ip addr flush` -/
def flush (net : Net) (dev : Text) : Net where
  dev := net.dev
  att
    | .address dev' addr peer => if dev' = dev then none else net.att (.address dev' addr peer)
    | .route dest dev' => net.att (.route dest dev')
  attached := by
    intro a ha
    refine net.attached a fun hnone => ha ?_
    cases a with
    | address dev' addr peer =>
      dsimp only
      rw [hnone, ite_self]
    | route dest dev' => exact hnone

def enableCmd (env : Env) (net : Net) (c : Cmd) : Net :=
  match c with
  | .IP_ADDR_FLUSH dev => flush net dev
  | c =>
    match creates env net c with
    | some new => net.create new
    | none => net

def enableInterfaces (env : Env) (cmds : List Cmd) (net : Net) : Net :=
  cmds.foldl (enableCmd env) net

/-- What the opposite command removes. -/
def removes (env : Env) : Cmd → Option Removal
  | .MODPROBE mod name => some (.dev .dummy (env.dummyName (if name = [] then mod else name)))
  | .VCONFIG name _ _ _ => some (.dev .vlan name)
  | .VCONFIG_LEGACY _ link id _ => some (.dev .vlan (link ++ '.' :: id))
  | .IP_ADDR addr _ label dev peer => some (.att (.address dev addr peer) (labelOf addr label))
  | .IP_ROUTE dest dev => some (.att (.route dest dev) none)
  | .TUNCTL dev options =>
    if [] ∈ options then none else some (.dev (tunKind options) (ifrName dev))
  | .IPTABLES .. | .NAMEIF .. | .IP_ADDR_FLUSH _ | .IP_LINK _ | .unknown .. => none

def disableCmd (env : Env) (net : Net) (c : Cmd) : Net :=
  match removes env c with
  | some old => net.destroy old
  | none => net

def disableInterfaces (env : Env) (cmds : List Cmd) (net : Net) : Net :=
  cmds.reverse.foldl (disableCmd env) net

/-! ## What the interfaces ask for -/

/-- **Nothing is done** for an interface that is marked `nodev`. -/
theorem nodev_cmds {env : Env} {iface : Iface} {opts : Options}
    (h : processSingleInterface env iface = some opts) (hnodev : testE iface.files "nodev" = true) :
    opts.cmds = [] := by
  unfold processSingleInterface at h
  dsimp only at h
  split at h
  · cases h
  split at h
  · cases h
  rw [hnodev, Bool.true_or, if_pos rfl] at h
  cases h
  rfl

/-! ## What one command does -/

/-- The device gets the name by which it is removed. -/
def Named (env : Env) : Cmd → Prop
  | .VCONFIG_LEGACY _ link id nameType =>
    ∀ name, env.vconfigName link id nameType = some name → name = link ++ '.' :: id
  | _ => True

end Interfaces
