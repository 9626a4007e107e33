import UtilVserver.Lib.CString
import UtilVserver.Lib.BitMention
import Mathlib.Data.List.Infix

/-!
# `secure-mount`

The options of an fstab line, and the two ways of mounting: `mount(2)` with the flags of the
options, or an external program with the options themselves.

* `fstabOptions`, `searchOption`, `transformOptionList` — the options, with the memory they are
  copied to.
* `parseFstabLine`, `callExternalMount` — from a line to the arguments of the external program.
* `elements`, `lookup` — the elements of an option list, and the option an element stands for.
* `mountForbids` — what `mount(8)` makes of an option list, for device files.

Principal results: `transformOptionList_words`, `callExternalMount_nodev_iff` and
`transformOptionList_meaning_iff`.
-/

set_option autoImplicit false

namespace SecureMount

open CString BitMention

abbrev Word := BitVec 64

def MS_RDONLY : Word := 1
def MS_NOSUID : Word := 2
def MS_NODEV : Word := 4
def MS_NOEXEC : Word := 8
def MS_SYNCHRONOUS : Word := 16
def MS_REMOUNT : Word := 32
def MS_MANDLOCK : Word := 64
def MS_DIRSYNC : Word := 128
def MS_NOATIME : Word := 1024
def MS_NODIRATIME : Word := 2048
def MS_BIND : Word := 4096
def MS_MOVE : Word := 8192
def MS_REC : Word := 0x4000
def MS_UNBINDABLE : Word := 1 <<< 17
def MS_PRIVATE : Word := 1 <<< 18
def MS_SLAVE : Word := 1 <<< 19
def MS_SHARED : Word := 1 <<< 20

def XFLAG_NOAUTO : Word := 1
def XFLAG_NOMTAB : Word := 4

/-- `struct FstabOption`. -/
structure FstabOption where
  opt : Text
  flag : Word
  mask : Word
  xflag : Word
  deriving DecidableEq

/-- `FSTAB_OPTIONS`. -/
def fstabOptions : List FstabOption :=
  [ ⟨"defaults".toList, MS_NODEV,
      MS_RDONLY ||| MS_NOSUID ||| MS_NODEV ||| MS_NOEXEC ||| MS_SYNCHRONOUS, 0⟩,
    ⟨"rbind".toList, MS_BIND ||| MS_REC, MS_BIND ||| MS_REC, 0⟩,
    ⟨"bind".toList, MS_BIND, MS_BIND, 0⟩,
    ⟨"move".toList, MS_MOVE, MS_MOVE, 0⟩,
    ⟨"async".toList, 0, MS_SYNCHRONOUS, 0⟩,
    ⟨"sync".toList, MS_SYNCHRONOUS, MS_SYNCHRONOUS, 0⟩,
    ⟨"atime".toList, 0, MS_NOATIME, 0⟩,
    ⟨"noatime".toList, MS_NOATIME, MS_NOATIME, 0⟩,
    ⟨"dev".toList, 0, MS_NODEV, 0⟩,
    ⟨"nodev".toList, MS_NODEV, MS_NODEV, 0⟩,
    ⟨"exec".toList, 0, MS_NOEXEC, 0⟩,
    ⟨"noexec".toList, MS_NOEXEC, MS_NOEXEC, 0⟩,
    ⟨"suid".toList, 0, MS_NOSUID, 0⟩,
    ⟨"nosuid".toList, MS_NOSUID, MS_NOSUID, 0⟩,
    ⟨"ro".toList, MS_RDONLY, MS_RDONLY, 0⟩,
    ⟨"rw".toList, 0, MS_RDONLY, 0⟩,
    ⟨"remount".toList, MS_REMOUNT, MS_REMOUNT, 0⟩,
    ⟨"users".toList, MS_NOEXEC ||| MS_NOSUID ||| MS_NODEV, MS_NOEXEC ||| MS_NOSUID ||| MS_NODEV, 0⟩,
    ⟨"mandlock".toList, MS_MANDLOCK, MS_MANDLOCK, 0⟩,
    ⟨"nodiratime".toList, MS_NODIRATIME, MS_NODIRATIME, 0⟩,
    ⟨"dirsync".toList, MS_DIRSYNC, MS_DIRSYNC, 0⟩,
    ⟨"_netdev".toList, 0, 0, 0⟩,
    ⟨"auto".toList, 0, 0, 0⟩,
    ⟨"noauto".toList, 0, 0, XFLAG_NOAUTO⟩,
    ⟨"user".toList, 0, 0, 0⟩,
    ⟨"nouser".toList, 0, 0, 0⟩,
    ⟨"rec".toList, MS_REC, MS_REC, 0⟩,
    ⟨"unbindable".toList, MS_UNBINDABLE, MS_UNBINDABLE, 0⟩,
    ⟨"private".toList, MS_PRIVATE, MS_PRIVATE, 0⟩,
    ⟨"slave".toList, MS_SLAVE, MS_SLAVE, 0⟩,
    ⟨"shared".toList, MS_SHARED, MS_SHARED, 0⟩,
    ⟨"nomtab".toList, 0, 0, XFLAG_NOMTAB⟩ ]

/-- `searchOption`: the first entry that agrees in the first `len` characters. -/
def searchOption (opt : Text) (len : Nat) : Option FstabOption :=
  fstabOptions.find? fun i => strncmp i.opt opt len

/-- `flag`, `mask` and `xflag` of a `struct MountInfo`. -/
structure Words where
  flag : Word
  mask : Word
  xflag : Word
  deriving DecidableEq

def Words.apply (s : Words) (opt : FstabOption) : Words where
  flag := s.flag &&& ~~~opt.mask ||| opt.flag
  mask := s.mask ||| opt.mask
  xflag := s.xflag ||| opt.xflag

/-! ## The memory for the other options -/

/-- Write from position `i` on; none if that is not inside of the block. -/
def store (mem : List Char) (i : Nat) : Text → Option (List Char)
  | [] => some mem
  | c :: t => if i < mem.length then store (mem.set i c) (i + 1) t else none

/-- The block at `data`, and how far `dst` is in it. -/
structure Block where
  mem : List Char
  dst : Nat

/-- Append an element, behind a comma if it is not the first one, and a NUL. -/
def Block.put (b : Block) (elem : Text) : Option Block :=
  let sep := if b.dst ≠ 0 then [','] else []
  let dst := b.dst + sep.length + elem.length
  (store b.mem b.dst (sep ++ elem ++ ['\x00'])).map fun mem => ⟨mem, dst⟩

/-- The string at the start of the block; none if the block holds no NUL. -/
def readString (mem : List Char) : Option Text :=
  (strchr mem '\x00').map fun _ => mem.takeWhile (· ≠ '\x00')

/-- What `transformOptionList` changes; no block after a write outside of it. -/
structure Scan where
  words : Words
  block : Option Block

/-- The body of the loop for the element with `len` characters. -/
def Scan.element (s : Scan) (ptr : Text) (len : Nat) : Scan :=
  match searchOption ptr len with
  | some opt => { s with words := s.words.apply opt }
  | none => { s with block := s.block.bind (Block.put · (ptr.take len)) }

/-- The loop of `transformOptionList`; nothing is done behind a comma at the end. -/
def transformFrom (ptr : Text) (s : Scan) : Scan :=
  match _hpos : strchr ptr ',' with
  | none => s.element ptr ptr.length
  | some pos =>
    let s := s.element ptr (ptr.length - pos.length)
    if pos.tail = [] then s else transformFrom pos.tail s
  termination_by ptr.length
  decreasing_by
    obtain ⟨t, r, -, rfl, rfl⟩ := strchr_some _hpos
    simp
    omega

/-- `struct MountInfo`. -/
structure MountInfo where
  src : Text
  dst : Text
  name : Text
  type : Option Text
  words : Words
  data : Text
  /-- The string at `data_parsed`, if it is one. -/
  dataParsed : Option Text

/-- `transformOptionList`; `malloc` gives the content of a new block. -/
def transformOptionList (malloc : Nat → List Char) (info : MountInfo) : MountInfo :=
  let s := transformFrom info.data ⟨info.words, some ⟨malloc info.data.length, 0⟩⟩
  { info with words := s.words, dataParsed := s.block.bind fun b => readString b.mem }

/-! ## From a line to a mount -/

/-- `MOVE_TO_NEXT_FIELD`: the field, and what follows it. -/
def moveToNextField (allowEol : Bool) (ptr : Text) : Option (Text × Text) :=
  let rest := ptr.dropWhile fun c => !isspace c
  if !allowEol && rest.isEmpty then none
  else some (ptr.takeWhile fun c => !isspace c, rest.tail.dropWhile isspace)

inductive ParseResult where
  | doit (info : MountInfo)
  | fail
  | ignore

/-- The words before the options are looked at. -/
def startWords (type : Text) : Words :=
  if type = "devpts".toList then ⟨MS_NODEV &&& ~~~MS_NODEV, MS_NODEV, 0⟩ else ⟨MS_NODEV, 0, 0⟩

/-- The fields, before the options are looked at. -/
def fieldsInfo (src dst type data : Text) : MountInfo where
  src := src
  dst := dst
  name := ".".toList
  type := if type = "none".toList then none else some type
  words := startWords type
  data := data
  dataParsed := none

/-- `parseFstabLine` behind the fields. -/
def parseFields (malloc : Nat → List Char) (honorNoauto : Bool) (src dst type data : Text) :
    ParseResult :=
  if type = "swap".toList then .ignore
  else
    let info := transformOptionList malloc (fieldsInfo src dst type data)
    if honorNoauto && info.words.xflag &&& XFLAG_NOAUTO ≠ 0 then .ignore else .doit info

/-- `parseFstabLine`. -/
def parseFstabLine (malloc : Nat → List Char) (buf : Text) (honorNoauto : Bool) : ParseResult :=
  match buf.dropWhile isspace with
  | [] => .ignore
  | '#' :: _ => .ignore
  | buf =>
    match moveToNextField false buf with
    | none => .fail
    | some (src, buf) =>
      match moveToNextField false buf with
      | none => .fail
      | some (dst, buf) =>
        match moveToNextField false buf with
        | none => .fail
        | some (type, buf) =>
          match moveToNextField true buf with
          | none => .fail
          | some (data, _) => parseFields malloc honorNoauto src dst type data

/-- The argument of `-o`. -/
def optionArgument (mnt : MountInfo) : Text :=
  if mnt.data ≠ [] ∧ mnt.data ≠ "defaults".toList then
    if mnt.words.mask &&& MS_NODEV ≠ 0 then mnt.data else "nodev,".toList ++ mnt.data
  else "nodev".toList

/-- `callExternalMount`: the arguments of the program. -/
def callExternalMount (mountProg : Text) (mnt : MountInfo) : List Text :=
  [mountProg, "-n".toList] ++
    (if mnt.words.flag &&& MS_BIND ≠ 0 then ["--bind".toList]
      else if mnt.words.flag &&& MS_MOVE ≠ 0 then ["--move".toList] else []) ++
    ["-o".toList, optionArgument mnt] ++
    (match mnt.type with
      | some type => ["-t".toList, type]
      | none => []) ++
    [mnt.src, mnt.name]

/-- `canHandleInternal`. -/
def canHandleInternal (mnt : MountInfo) : Bool :=
  if mnt.words.flag &&& (MS_BIND ||| MS_MOVE) ≠ 0 then true
  else if mnt.words.flag &&& (MS_SHARED ||| MS_SLAVE ||| MS_PRIVATE ||| MS_UNBINDABLE) ≠ 0 then true
  else
    match mnt.type with
    | none => false
    | some type => type ∈ ["tmpfs", "sysfs", "proc", "sockfs", "pipefs", "futexfs", "inotifyfs",
        "devpts", "ext3", "ext2", "ramfs", "hugetlbfs", "usbfs", "binfmt_misc"].map String.toList

inductive MountCall where
  /-- `mount(2)` with these flags. -/
  | internal (flags : Word) (data : Option Text)
  | external (argv : List Text)

/-- The way `mountSingle` mounts. -/
def mountCall (mountProg : Text) (mnt : MountInfo) : MountCall :=
  if canHandleInternal mnt then .internal mnt.words.flag mnt.dataParsed
  else .external (callExternalMount mountProg mnt)

/-! ## The elements of an option list -/

/-- Without a comma at the end. -/
def chomp (t : Text) : Text := if t.getLast? = some ',' then t.dropLast else t

/-- The elements that `transformOptionList` looks at. -/
def elements (data : Text) : List Text := (chomp data).splitOn ','

/-- The entry that `searchOption` finds for an element. -/
def lookup (e : Text) : Option FstabOption := fstabOptions.find? fun i => e.isPrefixOf i.opt

/-- One turn of the loop. -/
def Scan.step (s : Scan) (e : Text) : Scan :=
  match lookup e with
  | some opt => { s with words := s.words.apply opt }
  | none => { s with block := s.block.bind (Block.put · e) }

theorem searchOption_append (t r : Text) : searchOption (t ++ r) t.length = lookup t := by
  simp only [searchOption, lookup, strncmp_append]

theorem Scan.element_eq (s : Scan) (t r : Text) : s.element (t ++ r) t.length = s.step t := by
  unfold Scan.element Scan.step
  rw [searchOption_append, List.take_left]

theorem elements_of_not_mem {t : Text} (h : ',' ∉ t) : elements t = [t] := by
  have hlast : t.getLast? ≠ some ',' := fun hlast => h (List.mem_of_getLast? hlast)
  rw [elements, chomp, if_neg hlast, List.splitOn_eq_singleton h]

theorem elements_append {t r : Text} (h : ',' ∉ t) :
    elements (t ++ ',' :: r) = t :: if r = [] then [] else elements r := by
  have hsplit (u : Text) : (t ++ ',' :: u).splitOn ',' = t :: u.splitOn ',' := by
    rw [List.splitOn_append_cons_self, List.splitOn_eq_singleton h, List.singleton_append]
  by_cases hr : r = []
  · rw [if_pos hr, hr, elements, chomp, if_pos (by simp), List.dropLast_concat,
      List.splitOn_eq_singleton h]
  · have hlast : (t ++ ',' :: r).getLast? = r.getLast? := by
      rw [List.append_cons, List.getLast?_append_of_ne_nil _ hr]
    have hchomp : chomp (t ++ ',' :: r) = t ++ ',' :: chomp r := by
      unfold chomp
      rw [hlast]
      split
      · rw [List.dropLast_append_of_ne_nil (List.cons_ne_nil _ _), List.dropLast_cons_of_ne_nil hr]
      · rfl
    rw [if_neg hr, elements, hchomp, hsplit, elements]

/-- **The loop goes through the elements.** -/
theorem transformFrom_eq (ptr : Text) (s : Scan) :
    transformFrom ptr s = (elements ptr).foldl Scan.step s := by
  fun_induction transformFrom ptr s with
  | case1 ptr s h =>
    rw [elements_of_not_mem (strchr_none h)]
    have helement := s.element_eq ptr []
    rw [List.append_nil] at helement
    exact helement
  | case2 ptr s pos h s₁ htail =>
    obtain ⟨t, r, ht, rfl, rfl⟩ := strchr_some h
    have hr : r = [] := htail
    have hlen : (t ++ ',' :: r).length - (',' :: r).length = t.length := by simp
    rw [elements_append ht, if_pos hr]
    show s.element (t ++ ',' :: r) ((t ++ ',' :: r).length - (',' :: r).length) = s.step t
    rw [hlen, s.element_eq]
  | case3 ptr s pos h s₁ htail ih =>
    obtain ⟨t, r, ht, rfl, rfl⟩ := strchr_some h
    have hr : r ≠ [] := htail
    have hlen : (t ++ ',' :: r).length - (',' :: r).length = t.length := by simp
    have hs : s₁ = s.step t := by
      show s.element (t ++ ',' :: r) ((t ++ ',' :: r).length - (',' :: r).length) = s.step t
      rw [hlen, s.element_eq]
    rw [elements_append ht, if_neg hr, List.foldl_cons, ← hs]
    exact ih

/-! ## The flags of a list -/

/-- An option clears the bits of its mask and sets its flags. -/
def FstabOption.mentions (opt : FstabOption) : List (Mention 64) :=
  [⟨true, opt.mask⟩, ⟨false, opt.flag⟩]

/-- The sign of an option for a bit: set, cleared, or left alone. -/
def FstabOption.sign (opt : FstabOption) (b : Nat) : Option Bool :=
  if opt.flag.getLsbD b then some false else if opt.mask.getLsbD b then some true else none

/-- The words after the options that the elements stand for. -/
def wordsBy (read : Text → Option FstabOption) (es : List Text) (s : Words) : Words :=
  (es.filterMap read).foldl Words.apply s

/-- The last sign of a bit among the options that the elements stand for. -/
def signBy (read : Text → Option FstabOption) (es : List Text) (b : Nat) : Option Bool :=
  lastSign ((es.filterMap read).flatMap FstabOption.mentions) b

/-- Elements are read as entries of the table. -/
def Reads (read : Text → Option FstabOption) : Prop :=
  ∀ e opt, read e = some opt → opt ∈ fstabOptions

theorem reads_lookup : Reads lookup := fun _ _ h => List.mem_of_find?_eq_some h

theorem mask_or_flag : ∀ opt ∈ fstabOptions, opt.mask ||| opt.flag = opt.mask := by decide

theorem foldl_apply_flag (opts : List FstabOption) (s : Words) :
    (opts.foldl Words.apply s).flag = foldFlag (opts.flatMap FstabOption.mentions) s.flag := by
  induction opts generalizing s with
  | nil => rfl
  | cons opt opts ih =>
    rw [List.foldl_cons, ih, List.flatMap_cons, foldFlag_append]
    rfl

theorem foldl_apply_mask {opts : List FstabOption} (h : ∀ opt ∈ opts, opt ∈ fstabOptions)
    (s : Words) :
    (opts.foldl Words.apply s).mask = foldMask (opts.flatMap FstabOption.mentions) s.mask := by
  induction opts generalizing s with
  | nil => rfl
  | cons opt opts ih =>
    have hmask := mask_or_flag opt (h opt List.mem_cons_self)
    rw [List.foldl_cons, ih fun o ho => h o (List.mem_cons_of_mem _ ho), List.flatMap_cons,
      foldMask_append]
    simp only [FstabOption.mentions, foldMask_cons, foldMask_nil, id, BitVec.or_assoc, hmask]
    rfl

theorem filterMap_reads {read : Text → Option FstabOption} (h : Reads read) (es : List Text) :
    ∀ opt ∈ es.filterMap read, opt ∈ fstabOptions := by
  intro opt hopt
  obtain ⟨e, -, he⟩ := List.mem_filterMap.1 hopt
  exact h e opt he

/-- **A flag is set or cleared by the last element that has it in its mask.** -/
theorem wordsBy_flag (read : Text → Option FstabOption) (es : List Text) (s : Words) (b : Nat) :
    (wordsBy read es s).flag.getLsbD b =
      match signBy read es b with
      | some neg => !neg
      | none => s.flag.getLsbD b := by
  rw [wordsBy, foldl_apply_flag, foldFlag_bit]
  rfl

theorem wordsBy_mask {read : Text → Option FstabOption} (h : Reads read) (es : List Text)
    (s : Words) (b : Nat) :
    (wordsBy read es s).mask.getLsbD b = (s.mask.getLsbD b || (signBy read es b).isSome) := by
  rw [wordsBy, foldl_apply_mask (filterMap_reads h es), foldMask_bit]
  rfl

theorem signBy_concat (read : Text → Option FstabOption) (es : List Text) (e : Text) (b : Nat) :
    signBy read (es ++ [e]) b =
      ((read e).bind fun opt => opt.sign b).or (signBy read es b) := by
  unfold signBy
  cases hread : read e with
  | none => simp [hread]
  | some opt =>
    have hlast : [e].filterMap read = [opt] := by simp [hread]
    rw [List.filterMap_append, hlast, List.flatMap_append, List.flatMap_singleton]
    simp only [FstabOption.mentions, Option.bind_some, FstabOption.sign]
    rw [show ∀ ms : List (Mention 64), ms ++ [⟨true, opt.mask⟩, ⟨false, opt.flag⟩] =
      ms ++ [⟨true, opt.mask⟩] ++ [⟨false, opt.flag⟩] from fun ms => by simp,
      lastSign_concat, lastSign_concat]
    split
    · rfl
    · split
      · rfl
      · rfl

/-- **The words `transformOptionList` computes.** -/
theorem transformOptionList_words (malloc : Nat → List Char) (info : MountInfo) :
    (transformOptionList malloc info).words = wordsBy lookup (elements info.data) info.words := by
  have hfold (es : List Text) (s : Scan) :
      (es.foldl Scan.step s).words = wordsBy lookup es s.words := by
    induction es generalizing s with
    | nil => rfl
    | cons e es ih =>
      rw [List.foldl_cons, ih]
      unfold Scan.step wordsBy
      cases hlookup : lookup e with
      | none => simp [hlookup]
      | some opt => simp [hlookup]
  unfold transformOptionList
  simp only
  rw [transformFrom_eq, hfold]

/-! ## The reading of `mount(8)` -/

def dev : Text := "dev".toList

def forbidding : List Text := ["nodev".toList, "user".toList, "users".toList]

/-- `mount(8)` reads one element. -/
def mountReads (forbidden : Bool) (e : Text) : Bool :=
  if e ∈ forbidding then true else if e = dev then false else forbidden

/-- **Device files are forbidden** by a list of options. -/
def mountForbids (opts : Text) : Bool := (opts.splitOn ',').foldl mountReads false

/-- What `searchOption` takes for `defaults`, `nodev` or `users`, but `mount(8)` does not take for
anything that forbids device files. -/
def loose : List Text :=
  ["", "d", "de", "def", "defa", "defau", "defaul", "default", "defaults", "nod", "node", "u", "us",
    "use"].map String.toList

/-- Some element with `P` has no element with `Q` behind it. -/
def Unanswered (P Q : Text → Prop) (es : List Text) : Prop :=
  ∃ pre e post, es = pre ++ e :: post ∧ P e ∧ ∀ e' ∈ post, ¬ Q e'

theorem unanswered_nil (P Q : Text → Prop) : ¬ Unanswered P Q [] := by
  rintro ⟨pre, e, post, h, -⟩
  cases pre <;> cases h

theorem unanswered_concat (P Q : Text → Prop) (es : List Text) (e : Text) :
    Unanswered P Q (es ++ [e]) ↔ P e ∨ Unanswered P Q es ∧ ¬ Q e := by
  constructor
  · rintro ⟨pre, x, post, h, hP, hQ⟩
    cases post using List.reverseRecOn with
    | nil =>
      obtain ⟨-, hx⟩ := List.append_inj' h rfl
      cases hx
      exact Or.inl hP
    | append_singleton post y =>
      have hsplit : es ++ [e] = (pre ++ x :: post) ++ [y] := by simp [h]
      obtain ⟨hes, hy⟩ := List.append_inj' hsplit rfl
      cases hy
      exact Or.inr ⟨⟨pre, x, post, hes, hP, fun z hz => hQ z (List.mem_append_left _ hz)⟩,
        hQ e (by simp)⟩
  · rintro (hP | ⟨⟨pre, x, post, rfl, hP, hQ⟩, he⟩)
    · exact ⟨es, e, [], rfl, hP, fun e' he' => by cases he'⟩
    · refine ⟨pre, x, post ++ [e], by simp, hP, fun z hz => ?_⟩
      rcases List.mem_append.1 hz with hz | hz
      · exact hQ z hz
      · rw [List.mem_singleton.1 hz]
        exact he

theorem unanswered_or (P P' Q : Text → Prop) (es : List Text) :
    Unanswered (fun e => P e ∨ P' e) Q es ↔ Unanswered P Q es ∨ Unanswered P' Q es := by
  constructor
  · rintro ⟨pre, e, post, h, hP | hP, hQ⟩
    · exact Or.inl ⟨pre, e, post, h, hP, hQ⟩
    · exact Or.inr ⟨pre, e, post, h, hP, hQ⟩
  · rintro (⟨pre, e, post, h, hP, hQ⟩ | ⟨pre, e, post, h, hP, hQ⟩)
    · exact ⟨pre, e, post, h, Or.inl hP, hQ⟩
    · exact ⟨pre, e, post, h, Or.inr hP, hQ⟩

/-! ## Which elements mean what -/

/-- The bit of `MS_NODEV`. -/
def nodevBit : Nat := 2

def nodevSign (e : Text) : Option Bool := (lookup e).bind fun opt => opt.sign nodevBit

/-- Every text that some name in the table starts with. -/
def prefixes : List Text := fstabOptions.flatMap fun opt => opt.opt.inits

theorem mem_prefixes {e : Text} {opt : FstabOption} (hopt : opt ∈ fstabOptions)
    (h : e <+: opt.opt) : e ∈ prefixes :=
  List.mem_flatMap.2 ⟨opt, hopt, (List.mem_inits _ _).2 h⟩

theorem lookup_of_not_mem {e : Text} (h : e ∉ prefixes) : lookup e = none := by
  cases hlookup : lookup e with
  | none => rfl
  | some opt =>
    have hmem := List.mem_of_find?_eq_some hlookup
    have hcommon := List.find?_some hlookup
    rw [List.isPrefixOf_iff_prefix] at hcommon
    exact absurd (mem_prefixes hmem hcommon) h

theorem prefixes_sign : ∀ e ∈ prefixes,
    (nodevSign e = some false ↔ e ∈ forbidding ∨ e ∈ loose) ∧
      (nodevSign e = some true ↔ e = dev) := by
  decide +kernel

theorem named_prefixes : ∀ e ∈ forbidding ++ loose ++ [dev], e ∈ prefixes := by
  have hnames : ∀ e ∈ forbidding ++ loose ++ [dev], ∃ opt ∈ fstabOptions, e <+: opt.opt := by
    decide +kernel
  intro e he
  obtain ⟨opt, hopt, hpre⟩ := hnames e he
  exact mem_prefixes hopt hpre

/-- **What an element does to `MS_NODEV`.** -/
theorem nodevSign_iff (e : Text) :
    (nodevSign e = some false ↔ e ∈ forbidding ∨ e ∈ loose) ∧
      (nodevSign e = some true ↔ e = dev) := by
  by_cases h : e ∈ prefixes
  · exact prefixes_sign e h
  · have hother : e ∉ forbidding ++ loose ++ [dev] := fun hmem => h (named_prefixes e hmem)
    simp only [List.mem_append, List.mem_singleton, not_or] at hother
    have hnone : nodevSign e = none := by rw [nodevSign, lookup_of_not_mem h, Option.bind_none]
    rw [hnone]
    simp [hother.1.1, hother.1.2, hother.2]

/-- A last element without text does not matter. -/
theorem splitOn_cases (data : Text) :
    data.splitOn ',' = elements data ∨ data.splitOn ',' = elements data ++ [[]] := by
  unfold elements chomp
  split
  · rename_i hlast
    obtain ⟨t, rfl⟩ := List.getLast?_eq_some_iff.1 hlast
    rw [List.dropLast_concat, List.splitOn_append_cons_self]
    exact Or.inr rfl
  · exact Or.inl rfl

theorem foldl_mountReads (es : List Text) :
    es.foldl mountReads false = true ↔
      Unanswered (· ∈ forbidding) (· = dev) es := by
  induction es using List.reverseRecOn with
  | nil => simpa using unanswered_nil _ _
  | append_singleton es e ih =>
    rw [List.foldl_concat, unanswered_concat, mountReads]
    split
    · rename_i hforbidding
      simp [hforbidding]
    · rename_i hforbidding
      split
      · rename_i hdev
        simp only [Bool.false_eq_true, false_iff, not_or, not_and, not_not]
        exact ⟨hforbidding, fun _ => hdev⟩
      · rename_i hdev
        rw [ih]
        simp [hforbidding, hdev]

theorem mountForbids_iff (data : Text) :
    mountForbids data = true ↔
      Unanswered (· ∈ forbidding) (· = dev) (elements data) := by
  rw [← foldl_mountReads, mountForbids]
  rcases splitOn_cases data with h | h
  · rw [h]
  · have hneutral (b : Bool) : mountReads b [] = b := by
      simp [mountReads, forbidding, dev]
    rw [h, List.foldl_concat, hneutral]

/-- **`MS_NODEV` is set last** by an element that forbids device files or is loose. -/
theorem signBy_nodev (es : List Text) :
    signBy lookup es nodevBit = some false ↔
      Unanswered (· ∈ forbidding) (· = dev) es ∨
        Unanswered (· ∈ loose) (· = dev) es := by
  rw [← unanswered_or]
  induction es using List.reverseRecOn with
  | nil => simpa [signBy] using unanswered_nil _ _
  | append_singleton es e ih =>
    have hsign := nodevSign_iff e
    rw [signBy_concat, unanswered_concat, ← ih]
    show (nodevSign e).or _ = _ ↔ _
    cases hnodev : nodevSign e with
    | none =>
      rw [hnodev] at hsign
      simp only [reduceCtorEq, false_iff, not_or] at hsign
      simp [hsign.1.1, hsign.1.2, hsign.2]
    | some neg =>
      cases neg with
      | false => simp [hsign.1.1 hnodev]
      | true =>
        have hdev := hsign.2.1 hnodev
        have hother : ¬ (e ∈ forbidding ∨ e ∈ loose) := by
          rw [← hsign.1, hnodev]
          simp
        subst hdev
        simp [hother]

/-- The options for which both ways of mounting agree. -/
def NodevConsistent (data : Text) : Prop :=
  data = [] ∨ data = "defaults".toList ∨
    Unanswered (· ∈ forbidding) (· = dev) (elements data) ∨
      ¬ Unanswered (· ∈ loose) (· = dev) (elements data)

/-! ## The two ways of mounting -/

theorem and_nodev_ne_zero (x : Word) : x &&& MS_NODEV ≠ 0 ↔ x.getLsbD nodevBit = true := by
  have hbit : MS_NODEV = BitVec.twoPow 64 nodevBit := by decide
  rw [hbit, BitVec.and_twoPow]
  cases x.getLsbD nodevBit with
  | false => simp
  | true =>
    simp only [if_true, ne_eq, iff_true]
    decide

/-- What a line that is mounted consists of. -/
theorem parseFstabLine_doit {malloc : Nat → List Char} {buf : Text} {honorNoauto : Bool}
    {info : MountInfo} (h : parseFstabLine malloc buf honorNoauto = .doit info) :
    ∃ type, info.words = wordsBy lookup (elements info.data) (startWords type) := by
  have hfields (src dst type data : Text)
      (h : parseFields malloc honorNoauto src dst type data = .doit info) :
      ∃ type, info.words = wordsBy lookup (elements info.data) (startWords type) := by
    unfold parseFields at h
    split at h
    · cases h
    · simp only at h
      split at h
      · cases h
      · cases h
        exact ⟨type, transformOptionList_words _ _⟩
  unfold parseFstabLine at h
  split at h
  · cases h
  · cases h
  · split at h
    · cases h
    · split at h
      · cases h
      · split at h
        · cases h
        · split at h
          · cases h
          · exact hfields _ _ _ _ h

/-- Without an element that changes `MS_NODEV`, an option in front of the list decides. -/
theorem mountForbids_prepend {data : Text} (h : signBy lookup (elements data) nodevBit = none) :
    mountForbids ("nodev,".toList ++ data) = true := by
  have hneutral (es : List Text) (hes : signBy lookup es nodevBit = none) :
      es.foldl mountReads true = true := by
    induction es using List.reverseRecOn with
    | nil => rfl
    | append_singleton es e ih =>
      have hsign := nodevSign_iff e
      rw [signBy_concat, Option.or_eq_none_iff] at hes
      have hnone : nodevSign e = none := hes.1
      rw [hnone] at hsign
      simp only [reduceCtorEq, false_iff, not_or] at hsign
      rw [List.foldl_concat, ih hes.2, mountReads, if_neg hsign.1.1, if_neg hsign.2]
  have hsplit : ("nodev,".toList ++ data).splitOn ',' = "nodev".toList :: data.splitOn ',' :=
    List.splitOn_append_cons_self "nodev".toList data
  rw [mountForbids, hsplit, List.foldl_cons]
  show (data.splitOn ',').foldl mountReads true = true
  rcases splitOn_cases data with heq | heq
  · rw [heq, hneutral _ h]
  · rw [heq, List.foldl_concat, hneutral _ h]
    simp [mountReads, forbidding, dev]

theorem startWords_nodev (type : Text) :
    (startWords type).flag.getLsbD nodevBit = !(startWords type).mask.getLsbD nodevBit := by
  unfold startWords
  split
  · decide
  · decide

/-- **The external program forbids device files whenever the flags do**, if and only if the
options are consistent. -/
theorem callExternalMount_nodev_iff (malloc : Nat → List Char) (buf : Text) (honorNoauto : Bool)
    (info : MountInfo) (h : parseFstabLine malloc buf honorNoauto = .doit info) :
    (info.words.flag &&& MS_NODEV ≠ 0 → mountForbids (optionArgument info) = true) ↔
      NodevConsistent info.data := by
  obtain ⟨type, hwords⟩ := parseFstabLine_doit h
  have hstart := startWords_nodev type
  have hflag := wordsBy_flag lookup (elements info.data) (startWords type) nodevBit
  have hmask := wordsBy_mask reads_lookup (elements info.data) (startWords type) nodevBit
  have hsign := signBy_nodev (elements info.data)
  rw [← hwords] at hflag hmask
  unfold optionArgument NodevConsistent
  rw [and_nodev_ne_zero, ← mountForbids_iff] at *
  by_cases hnil : info.data = []
  · simp only [hnil, ne_eq, not_true_eq_false, false_and, if_false, true_or, iff_true]
    exact fun _ => by decide
  by_cases hdefaults : info.data = "defaults".toList
  · simp only [hdefaults, ne_eq, not_true_eq_false, and_false, if_false, true_or, or_true, iff_true]
    exact fun _ => by decide
  rw [if_pos ⟨hnil, hdefaults⟩]
  simp only [hnil, hdefaults, false_or]
  cases hs : signBy lookup (elements info.data) nodevBit with
  | none =>
    -- no element changes the flag
    rw [hs] at hflag hmask hsign
    simp only [reduceCtorEq, false_iff, not_or, Option.isSome_none, Bool.or_false] at hsign hmask
    simp only [hsign.2, not_false_eq_true, or_true, iff_true]
    intro hset
    rw [if_neg]
    · exact mountForbids_prepend hs
    · rw [and_nodev_ne_zero, hmask]
      rw [hflag, hstart] at hset
      simpa using hset
  | some neg =>
    rw [hs] at hflag hmask hsign
    rw [if_pos (by rw [and_nodev_ne_zero, hmask]; simp), hflag]
    cases neg with
    | true =>
      simp only [Option.some.injEq, Bool.true_eq_false, false_iff, not_or] at hsign
      simp [hsign.2]
    | false =>
      have hor := hsign.1 rfl
      simp only [Bool.not_false, forall_const]
      exact ⟨Or.inl, fun hcons => hcons.elim id fun hloose => hor.resolve_right hloose⟩

/-- Memory that is always empty strings. -/
def zeros (n : Nat) : List Char := List.replicate n '\x00'

/-- What an option list of an `xfs` file system makes of a line. -/
def xfsInfo (data : Text) : MountInfo :=
  transformOptionList zeros (fieldsInfo "/dev/sdb1".toList "/mnt".toList "xfs".toList data)

theorem parseFields_xfs {data : Text}
    (h : (wordsBy lookup (elements data) (startWords "xfs".toList)).xflag &&& XFLAG_NOAUTO = 0) :
    parseFields zeros true "/dev/sdb1".toList "/mnt".toList "xfs".toList data =
      .doit (xfsInfo data) := by
  have hwords : (xfsInfo data).words = wordsBy lookup (elements data) (startWords "xfs".toList) :=
    transformOptionList_words _ _
  have hauto : ¬ (true && (xfsInfo data).words.xflag &&& XFLAG_NOAUTO ≠ 0) = true := by
    rw [hwords, h]
    decide
  unfold parseFields
  rw [if_neg (by decide)]
  exact if_neg hauto

theorem parseFstabLine_noexec :
    parseFstabLine zeros "/dev/sdb1 /mnt xfs noexec 0 0".toList true =
      .doit (xfsInfo "noexec".toList) := by
  have hline : parseFstabLine zeros "/dev/sdb1 /mnt xfs noexec 0 0".toList true =
    parseFields zeros true "/dev/sdb1".toList "/mnt".toList "xfs".toList "noexec".toList := rfl
  rw [hline]
  exact parseFields_xfs (by decide)

theorem parseFstabLine_defaults :
    parseFstabLine zeros "/dev/sdb1 /mnt xfs defaults,noatime 0 0".toList true =
      .doit (xfsInfo "defaults,noatime".toList) := by
  have hline : parseFstabLine zeros "/dev/sdb1 /mnt xfs defaults,noatime 0 0".toList true =
    parseFields zeros true "/dev/sdb1".toList "/mnt".toList "xfs".toList
      "defaults,noatime".toList := rfl
  rw [hline]
  exact parseFields_xfs (by decide)

theorem callExternalMount_nodev_noexec :
    ((xfsInfo "noexec".toList).words.flag &&& MS_NODEV ≠ 0 →
      mountForbids (optionArgument (xfsInfo "noexec".toList)) = true) ↔
      NodevConsistent (xfsInfo "noexec".toList).data :=
  callExternalMount_nodev_iff zeros "/dev/sdb1 /mnt xfs noexec 0 0".toList true _
    parseFstabLine_noexec

/-- `defaults` sets the flag, and in front of another option it is all that is passed on. -/
theorem callExternalMount_defaults :
    parseFstabLine zeros "/dev/sdb1 /mnt xfs defaults,noatime 0 0".toList true =
        .doit (xfsInfo "defaults,noatime".toList) ∧
      canHandleInternal (xfsInfo "defaults,noatime".toList) = false ∧
      (xfsInfo "defaults,noatime".toList).words.flag &&& MS_NODEV ≠ 0 ∧
      mountForbids (optionArgument (xfsInfo "defaults,noatime".toList)) = false := by
  have hwords : (xfsInfo "defaults,noatime".toList).words =
      wordsBy lookup (elements "defaults,noatime".toList) (startWords "xfs".toList) :=
    transformOptionList_words _ _
  refine ⟨parseFstabLine_defaults, ?_, ?_, ?_⟩
  · unfold canHandleInternal
    rw [hwords]
    decide
  · rw [hwords]
    decide
  · unfold optionArgument
    rw [hwords]
    decide

/-! ## The meaning of a list -/

/-- The entry with exactly this name. -/
def named (e : Text) : Option FstabOption := fstabOptions.find? fun i => i.opt = e

/-- The elements with a text that names no option. -/
def others (data : Text) : List Text :=
  (data.splitOn ',').filter fun e => !e.isEmpty && (named e).isNone

/-- **What an option list means**: the elements that name options are the known ones, the words
are those of the named options, and `data_parsed` is the list of the others. -/
structure Meaning (info res : MountInfo) : Prop where
  known : ∀ e ∈ elements info.data,
    (searchOption e e.length).isSome = true ↔ ∃ opt ∈ fstabOptions, opt.opt = e
  words : res.words = wordsBy named (info.data.splitOn ',') info.words
  parsed : res.dataParsed = some (List.intercalate [','] (others info.data))

def user : Text := "user".toList

/-- The element names an option with the bit in its mask. -/
def Touches (b : Nat) (e : Text) : Prop := ∃ opt, named e = some opt ∧ opt.mask.getLsbD b = true

/-- The bits of `MS_NOSUID`, `MS_NODEV` and `MS_NOEXEC`. -/
def usersBits : List Nat := [1, 2, 3]

/-- **The lists that are understood.** -/
structure Understood (malloc : Nat → List Char) (info : MountInfo) : Prop where
  /-- An element is a name, or no name starts with it. -/
  exact_ : ∀ e ∈ elements info.data,
    (∃ opt ∈ fstabOptions, opt.opt = e) ∨ ∀ opt ∈ fstabOptions, ¬ e <+: opt.opt
  /-- Where `user` stands, what `users` would do is done by other elements or is so already. -/
  user : ∀ pre post, elements info.data = pre ++ user :: post → ∀ b ∈ usersBits,
    (info.words.mask.getLsbD b = true ∨ ∃ e ∈ elements info.data, Touches b e) ∧
      ((∃ e ∈ post, Touches b e) ∨ (wordsBy named pre info.words).flag.getLsbD b = true)
  /-- The memory holds the other elements and a NUL, or happens to hold a NUL. -/
  memory :
    if others info.data = [] then (malloc info.data.length).head? = some '\x00'
    else (List.intercalate [','] (others info.data)).length < (malloc info.data.length).length

/-! ### Known elements -/

theorem isSome_lookup (e : Text) :
    (lookup e).isSome = true ↔ ∃ opt ∈ fstabOptions, e <+: opt.opt := by
  simp [lookup, List.find?_isSome]

theorem isSome_named (e : Text) :
    (named e).isSome = true ↔ ∃ opt ∈ fstabOptions, opt.opt = e := by
  simp [named, List.find?_isSome]

theorem reads_named : Reads named := fun _ _ h => List.mem_of_find?_eq_some h

/-- Each element is a name, or no name starts with it. -/
def Exact (es : List Text) : Prop :=
  ∀ e ∈ es, (∃ opt ∈ fstabOptions, opt.opt = e) ∨ ∀ opt ∈ fstabOptions, ¬ e <+: opt.opt

theorem known_iff (es : List Text) :
    (∀ e ∈ es, (searchOption e e.length).isSome = true ↔ ∃ opt ∈ fstabOptions, opt.opt = e) ↔
      Exact es := by
  refine forall₂_congr fun e _ => ?_
  have hsearch : searchOption e e.length = lookup e := by
    have happend := searchOption_append e []
    rwa [List.append_nil] at happend
  rw [hsearch, isSome_lookup]
  constructor
  · intro h
    by_cases hcommon : ∃ opt ∈ fstabOptions, e <+: opt.opt
    · exact Or.inl (h.1 hcommon)
    · exact Or.inr fun opt hopt hpre => hcommon ⟨opt, hopt, hpre⟩
  · rintro (⟨opt, hopt, rfl⟩ | hnone)
    · exact ⟨fun _ => ⟨opt, hopt, rfl⟩, fun _ => ⟨opt, hopt, List.prefix_rfl⟩⟩
    · constructor
      · rintro ⟨opt, hopt, hpre⟩
        exact absurd hpre (hnone opt hopt)
      · rintro ⟨opt, hopt, rfl⟩
        exact absurd List.prefix_rfl (hnone opt hopt)

theorem lookup_names : ∀ opt ∈ fstabOptions, opt.opt ≠ user → lookup opt.opt = named opt.opt := by
  decide +kernel

/-- **Only `user` is taken for something else.** -/
theorem lookup_eq_named {es : List Text} (h : Exact es) {e : Text} (he : e ∈ es)
    (huser : e ≠ user) : lookup e = named e := by
  rcases h e he with ⟨opt, hopt, rfl⟩ | hnone
  · exact lookup_names opt hopt huser
  · have hlookup : ¬ (lookup e).isSome = true := by
      rw [isSome_lookup]
      rintro ⟨opt, hopt, hpre⟩
      exact hnone opt hopt hpre
    have hnamed : ¬ (named e).isSome = true := by
      rw [isSome_named]
      rintro ⟨opt, hopt, rfl⟩
      exact hnone opt hopt List.prefix_rfl
    rw [Option.not_isSome_iff_eq_none] at hlookup hnamed
    rw [hlookup, hnamed]

/-- The empty text is not a name, but every name starts with it. -/
theorem Exact.ne_nil {es : List Text} (h : Exact es) : [] ∉ es := by
  intro hmem
  rcases h [] hmem with ⟨opt, hopt, hnil⟩ | hnone
  · have hne : ∀ opt ∈ fstabOptions, opt.opt ≠ [] := by decide
    exact hne opt hopt hnil
  · exact hnone ⟨"dev".toList, 0, MS_NODEV, 0⟩ (by decide) List.nil_prefix

/-! ### The words -/

theorem sign_user (b : Nat) : ((named user).bind fun opt => opt.sign b) = none := by
  have huser : named user = some ⟨user, 0, 0, 0⟩ := by decide
  rw [huser]
  simp [FstabOption.sign]

theorem sign_lookup_user (b : Nat) : ((lookup user).bind fun opt => opt.sign b) =
    if b ∈ usersBits then some false else none := by
  have huser : lookup user = some ⟨"users".toList, 14, 14, 0⟩ := by decide
  have hbits : (14 : Word).getLsbD b = decide (b ∈ usersBits) := by
    by_cases hb : b < 64
    · revert b
      decide +kernel
    · rw [BitVec.getLsbD_of_ge _ _ (by omega)]
      simp [usersBits]
      omega
  rw [huser]
  simp only [Option.bind_some, FstabOption.sign, hbits, decide_eq_true_eq]
  split
  · rfl
  · rfl

/-- An element that does not touch the bit has no sign for it. -/
theorem sign_of_not_touches {b : Nat} {e : Text} (h : ¬ Touches b e) :
    ((named e).bind fun opt => opt.sign b) = none := by
  cases hnamed : named e with
  | none => rfl
  | some opt =>
    have hmask : opt.mask.getLsbD b = false := by
      by_contra hset
      exact h ⟨opt, hnamed, by simpa using hset⟩
    have hflag : opt.flag.getLsbD b = false := by
      have hor := congrArg (fun x : Word => x.getLsbD b)
        (mask_or_flag opt (reads_named e opt hnamed))
      simpa [hmask] using hor
    simp [FstabOption.sign, hmask, hflag]

theorem sign_of_touches {b : Nat} {e : Text} (h : Touches b e) :
    ∃ neg, ((named e).bind fun opt => opt.sign b) = some neg := by
  obtain ⟨opt, hnamed, hmask⟩ := h
  rw [hnamed, Option.bind_some, FstabOption.sign, hmask]
  split
  · exact ⟨false, rfl⟩
  · exact ⟨true, rfl⟩

theorem signBy_named_isSome (es : List Text) (b : Nat) :
    (signBy named es b).isSome = true ↔ ∃ e ∈ es, Touches b e := by
  induction es using List.reverseRecOn with
  | nil => simp [signBy]
  | append_singleton es e ih =>
    rw [signBy_concat]
    by_cases h : Touches b e
    · obtain ⟨neg, hneg⟩ := sign_of_touches h
      rw [hneg, Option.some_or]
      exact ⟨fun _ => ⟨e, by simp, h⟩, fun _ => rfl⟩
    · rw [sign_of_not_touches h, Option.none_or, ih]
      constructor
      · rintro ⟨x, hx, htouches⟩
        exact ⟨x, List.mem_append_left _ hx, htouches⟩
      · rintro ⟨x, hx, htouches⟩
        rcases List.mem_append.1 hx with hx | hx
        · exact ⟨x, hx, htouches⟩
        · rw [List.mem_singleton.1 hx] at htouches
          exact absurd htouches h

/-- Elements that do not touch the bit can be left out at the end. -/
theorem wordsBy_named_untouched (pre post : List Text) (s : Words) {b : Nat}
    (h : ∀ e ∈ post, ¬ Touches b e) :
    (wordsBy named (pre ++ post) s).flag.getLsbD b = (wordsBy named pre s).flag.getLsbD b := by
  have hsign : signBy named (pre ++ post) b = signBy named pre b := by
    induction post using List.reverseRecOn with
    | nil => rw [List.append_nil]
    | append_singleton post e ih =>
      rw [← List.append_assoc, signBy_concat, sign_of_not_touches (h e (by simp)), Option.none_or,
        ih fun x hx => h x (List.mem_append_left _ hx)]
  rw [wordsBy_flag, wordsBy_flag, hsign]

theorem not_touches_user (b : Nat) : ¬ Touches b user := by
  rintro ⟨opt, hnamed, hmask⟩
  have huser : named user = some ⟨user, 0, 0, 0⟩ := by decide
  rw [huser] at hnamed
  cases hnamed
  simp at hmask

/-- **Where the two readings differ**: `user` sets the bits of `users`. -/
theorem signBy_lookup {es : List Text} (h : Exact es) (b : Nat) :
    (b ∈ usersBits ∧ Unanswered (· = user) (Touches b) es → signBy lookup es b = some false) ∧
      (¬ (b ∈ usersBits ∧ Unanswered (· = user) (Touches b) es) →
        signBy lookup es b = signBy named es b) := by
  induction es using List.reverseRecOn with
  | nil => exact ⟨fun hun => absurd hun.2 (unanswered_nil _ _), fun _ => rfl⟩
  | append_singleton es e ih =>
    have ih := ih fun x hx => h x (List.mem_append_left _ hx)
    rw [signBy_concat, signBy_concat, unanswered_concat]
    by_cases huser : e = user
    · subst huser
      rw [sign_lookup_user, sign_user]
      by_cases hb : b ∈ usersBits
      · simp [hb]
      · simp only [hb, false_and, if_false, Option.none_or] at ih ⊢
        exact ⟨False.elim, ih.2⟩
    · rw [lookup_eq_named h (by simp) huser]
      by_cases htouches : Touches b e
      · obtain ⟨neg, hneg⟩ := sign_of_touches htouches
        rw [hneg]
        simp [huser, htouches]
      · rw [sign_of_not_touches htouches]
        simpa [huser, htouches] using ih

theorem wordsBy_xflag {es : List Text} (h : Exact es) (s : Words) :
    (wordsBy lookup es s).xflag = (wordsBy named es s).xflag := by
  unfold wordsBy
  induction es using List.reverseRecOn with
  | nil => rfl
  | append_singleton es e ih =>
    have ih := ih fun x hx => h x (List.mem_append_left _ hx)
    rw [List.filterMap_append, List.filterMap_append, List.foldl_append, List.foldl_append]
    by_cases huser : e = user
    · subst huser
      have hlookup : [user].filterMap lookup = [⟨"users".toList, 14, 14, 0⟩] := by decide
      have hnamed : [user].filterMap named = [⟨user, 0, 0, 0⟩] := by decide
      rw [hlookup, hnamed]
      simp [Words.apply, ih]
    · have hread := lookup_eq_named h (e := e) (by simp) huser
      cases hnamed : named e with
      | none => simp [hread, hnamed, ih]
      | some opt => simp [hread, hnamed, Words.apply, ih]

theorem unanswered_user {es : List Text} {b : Nat} :
    Unanswered (· = user) (Touches b) es ↔
      ∃ pre post, es = pre ++ user :: post ∧ ∀ e ∈ post, ¬ Touches b e := by
  constructor
  · rintro ⟨pre, e, post, h, rfl, hpost⟩
    exact ⟨pre, post, h, hpost⟩
  · rintro ⟨pre, post, h, hpost⟩
    exact ⟨pre, user, post, h, rfl, hpost⟩

/-- **The words are right** if every `user` that counts does no harm. -/
theorem words_iff {es : List Text} (h : Exact es) (s : Words) :
    wordsBy lookup es s = wordsBy named es s ↔
      ∀ b ∈ usersBits, Unanswered (· = user) (Touches b) es →
        (s.mask.getLsbD b = true ∨ ∃ e ∈ es, Touches b e) ∧
          (wordsBy named es s).flag.getLsbD b = true := by
  constructor
  · intro heq b hb hun
    have hsign := (signBy_lookup h b).1 ⟨hb, hun⟩
    constructor
    · have hmask := wordsBy_mask reads_lookup es s b
      rw [heq, wordsBy_mask reads_named, hsign, Option.isSome_some, Bool.or_true,
        Bool.or_eq_true, signBy_named_isSome] at hmask
      exact hmask
    · rw [← heq, wordsBy_flag, hsign]
      rfl
  · intro hcond
    have hbits (b : Nat) :
        (wordsBy lookup es s).flag.getLsbD b = (wordsBy named es s).flag.getLsbD b ∧
          (wordsBy lookup es s).mask.getLsbD b = (wordsBy named es s).mask.getLsbD b := by
      by_cases hun : b ∈ usersBits ∧ Unanswered (· = user) (Touches b) es
      · obtain ⟨hmask, hflag⟩ := hcond b hun.1 hun.2
        have hsign := (signBy_lookup h b).1 hun
        constructor
        · rw [hflag, wordsBy_flag, hsign]
          rfl
        · rw [wordsBy_mask reads_lookup, wordsBy_mask reads_named, hsign, Option.isSome_some,
            Bool.or_true, eq_comm, Bool.or_eq_true, signBy_named_isSome]
          exact hmask
      · have hsign := (signBy_lookup h b).2 hun
        rw [wordsBy_flag, wordsBy_flag, wordsBy_mask reads_lookup, wordsBy_mask reads_named, hsign]
        exact ⟨rfl, rfl⟩
    have hflag : (wordsBy lookup es s).flag = (wordsBy named es s).flag :=
      BitVec.eq_of_getLsbD_eq fun b _ => (hbits b).1
    have hmask : (wordsBy lookup es s).mask = (wordsBy named es s).mask :=
      BitVec.eq_of_getLsbD_eq fun b _ => (hbits b).2
    have hxflag := wordsBy_xflag h s
    cases hlookup : wordsBy lookup es s
    cases hnamed : wordsBy named es s
    simp_all

/-- The condition, for every place where `user` stands. -/
theorem user_iff (es : List Text) (s : Words) :
    (∀ b ∈ usersBits, Unanswered (· = user) (Touches b) es →
        (s.mask.getLsbD b = true ∨ ∃ e ∈ es, Touches b e) ∧
          (wordsBy named es s).flag.getLsbD b = true) ↔
      ∀ pre post, es = pre ++ user :: post → ∀ b ∈ usersBits,
        (s.mask.getLsbD b = true ∨ ∃ e ∈ es, Touches b e) ∧
          ((∃ e ∈ post, Touches b e) ∨ (wordsBy named pre s).flag.getLsbD b = true) := by
  have hpre {pre post : List Text} (hes : es = pre ++ user :: post) {b : Nat}
      (hpost : ∀ e ∈ post, ¬ Touches b e) :
      (wordsBy named es s).flag.getLsbD b = (wordsBy named pre s).flag.getLsbD b := by
    rw [hes]
    refine wordsBy_named_untouched pre (user :: post) s fun e he => ?_
    rcases List.mem_cons.1 he with rfl | he
    · exact not_touches_user b
    · exact hpost e he
  constructor
  · intro h pre post hes b hb
    by_cases hpost : ∃ e ∈ post, Touches b e
    · obtain ⟨e, he, htouches⟩ := hpost
      have hmem : e ∈ es := by
        rw [hes]
        exact List.mem_append_right _ (List.mem_cons_of_mem _ he)
      exact ⟨Or.inr ⟨e, hmem, htouches⟩, Or.inl ⟨e, he, htouches⟩⟩
    · have hpost : ∀ e ∈ post, ¬ Touches b e := fun e he htouches => hpost ⟨e, he, htouches⟩
      obtain ⟨hmask, hflag⟩ := h b hb (unanswered_user.2 ⟨pre, post, hes, hpost⟩)
      exact ⟨hmask, Or.inr (hpre hes hpost ▸ hflag)⟩
  · intro h b hb hun
    obtain ⟨pre, post, hes, hpost⟩ := unanswered_user.1 hun
    obtain ⟨hmask, htouches | hflag⟩ := h pre post hes b hb
    · obtain ⟨e, he, htouches⟩ := htouches
      exact absurd htouches (hpost e he)
    · exact ⟨hmask, (hpre hes hpost).trans hflag⟩

/-- Behind a comma at the end there is nothing to read. -/
theorem wordsBy_splitOn (data : Text) (s : Words) :
    wordsBy named (data.splitOn ',') s = wordsBy named (elements data) s := by
  have hnil : [([] : Text)].filterMap named = [] := by decide
  rcases splitOn_cases data with h | h
  · rw [h]
  · rw [h, wordsBy, wordsBy, List.filterMap_append, hnil, List.append_nil]

/-! ### The other elements -/

theorem store_append (pre old tail t : List Char) (h : old.length = t.length) :
    store (pre ++ old ++ tail) pre.length t = some (pre ++ t ++ tail) := by
  induction t generalizing pre old with
  | nil =>
    rw [List.length_eq_zero_iff.1 h]
    rfl
  | cons c t ih =>
    cases old with
    | nil => cases h
    | cons o old =>
      have hset : (pre ++ o :: old ++ tail).set pre.length c = (pre ++ [c]) ++ old ++ tail := by
        simp
      have hlen : pre.length + 1 = (pre ++ [c]).length := by simp
      rw [store, if_pos (by simp), hset, hlen, ih (pre ++ [c]) old (by simpa using h)]
      simp

/-- Nothing can be written behind the end. -/
theorem store_eq_none {mem : List Char} {i : Nat} {t : List Char} (ht : t ≠ [])
    (h : mem.length < i + t.length) : store mem i t = none := by
  induction t generalizing mem i with
  | nil => exact absurd rfl ht
  | cons c t ih =>
    rw [store]
    split
    · rename_i hlt
      by_cases hnil : t = []
      · rw [hnil, List.length_singleton] at h
        omega
      · refine ih hnil ?_
        rw [List.length_set]
        rw [List.length_cons] at h
        omega
    · rfl

/-- A block with the text and a NUL at its start. -/
structure Holds (mem : List Char) (t : Text) (b : Block) : Prop where
  dst : b.dst = t.length
  length : b.mem.length = mem.length
  text : ∃ tail, b.mem = t ++ '\x00' :: tail

/-- **One more element** fits into the block, or is written behind its end. -/
theorem put_spec {b : Block} {t rest : List Char} (hdst : b.dst = t.length)
    (hmem : b.mem = t ++ rest) (e : Text) :
    ((t ++ (if t ≠ [] then [','] else []) ++ e).length < b.mem.length →
        ∃ b', b.put e = some b' ∧ Holds b.mem (t ++ (if t ≠ [] then [','] else []) ++ e) b') ∧
      (b.mem.length ≤ (t ++ (if t ≠ [] then [','] else []) ++ e).length → b.put e = none) := by
  have hsep : (if b.dst ≠ 0 then [','] else []) = if t ≠ [] then [','] else [] := by
    rw [hdst]
    simp only [ne_eq, List.length_eq_zero_iff]
  unfold Block.put
  simp only [hsep]
  generalize (if t ≠ [] then [','] else []) = sep
  constructor
  · intro hlt
    have hsplit : b.mem = t ++ rest.take (sep ++ e ++ ['\x00']).length ++
        rest.drop (sep ++ e ++ ['\x00']).length := by
      rw [hmem, List.append_assoc, List.take_append_drop]
    have hlen : (rest.take (sep ++ e ++ ['\x00']).length).length =
        (sep ++ e ++ ['\x00']).length := by
      rw [hmem] at hlt
      simp only [List.length_append, List.length_take, List.length_singleton] at hlt ⊢
      omega
    have hstore := store_append t _ (rest.drop (sep ++ e ++ ['\x00']).length) _ hlen
    rw [← hsplit, ← hdst] at hstore
    rw [hstore]
    refine ⟨_, rfl, ?_, ?_, rest.drop (sep ++ e ++ ['\x00']).length, by simp⟩
    · simp only [hdst, List.length_append]
    · have hall := congrArg List.length hsplit
      rw [List.length_append, List.length_append, hlen] at hall
      dsimp only
      rw [List.length_append, List.length_append]
      exact hall.symm
  · intro hle
    rw [store_eq_none (by simp)]
    · rfl
    · simp only [List.length_append, List.length_singleton, hdst] at hle ⊢
      omega

theorem intercalate_concat (es : List Text) (e : Text) (h : es ≠ []) :
    List.intercalate [','] (es ++ [e]) = List.intercalate [','] es ++ [','] ++ e := by
  induction es with
  | nil => exact absurd rfl h
  | cons x es ih =>
    cases es with
    | nil => simp [List.intercalate, List.intersperse]
    | cons y es =>
      have ih := ih (List.cons_ne_nil _ _)
      simp only [List.intercalate, List.cons_append, List.intersperse, List.flatten_cons] at ih ⊢
      rw [ih]
      simp

theorem intercalate_ne_nil {es : List Text} (h : es ≠ []) (hne : [] ∉ es) :
    List.intercalate [','] es ≠ [] := by
  cases es with
  | nil => exact absurd rfl h
  | cons x es =>
    have hx : x ≠ [] := fun hx => hne (hx ▸ List.mem_cons_self)
    cases es with
    | nil => simpa [List.intercalate] using hx
    | cons y es => simp [List.intercalate, List.intersperse, hx]

/-- The block after all these elements. -/
def putAll (es : List Text) (b : Option Block) : Option Block :=
  es.foldl (fun b e => b.bind (Block.put · e)) b

/-- **The elements fit into the block**, joined with commas, or something is written behind its
end. -/
theorem putAll_spec (mem : List Char) {es : List Text} (hnil : es ≠ []) (hne : [] ∉ es) :
    ((List.intercalate [','] es).length < mem.length →
        ∃ b, putAll es (some ⟨mem, 0⟩) = some b ∧ Holds mem (List.intercalate [','] es) b) ∧
      (mem.length ≤ (List.intercalate [','] es).length → putAll es (some ⟨mem, 0⟩) = none) := by
  induction es using List.reverseRecOn with
  | nil => exact absurd rfl hnil
  | append_singleton es e ih =>
    have hstep : putAll (es ++ [e]) (some ⟨mem, 0⟩) =
        (putAll es (some ⟨mem, 0⟩)).bind (Block.put · e) := List.foldl_concat ..
    rw [hstep]
    by_cases hes : es = []
    · subst hes
      have hput := put_spec (b := ⟨mem, 0⟩) (t := []) rfl rfl e
      have hjoin : List.intercalate [','] ([] ++ [e]) = e := by simp [List.intercalate]
      rw [hjoin]
      simpa [putAll] using hput
    · have hne : [] ∉ es := fun hmem => hne (List.mem_append_left _ hmem)
      obtain ⟨hfits, hfails⟩ := ih hes hne
      rw [intercalate_concat es e hes]
      have hjoin := intercalate_ne_nil hes hne
      by_cases hlt : (List.intercalate [','] es).length < mem.length
      · obtain ⟨b, hb, hholds⟩ := hfits hlt
        obtain ⟨tail, htail⟩ := hholds.text
        have hput := put_spec hholds.dst htail e
        rw [if_pos hjoin, hholds.length] at hput
        rw [hb]
        refine ⟨fun hfit => ?_, hput.2⟩
        obtain ⟨b', hb', hholds'⟩ := hput.1 hfit
        exact ⟨b', hb', hholds'.dst, hholds'.length.trans hholds.length, hholds'.text⟩
      · have hle : mem.length ≤ (List.intercalate [','] es).length := by omega
        rw [hfails hle]
        refine ⟨fun hfit => ?_, fun _ => rfl⟩
        simp only [List.length_append] at hfit
        omega

/-- A text with a NUL behind it is read back up to the first NUL. -/
theorem readString_nul (t tail : List Char) :
    readString (t ++ '\x00' :: tail) = some (t.takeWhile (· ≠ '\x00')) := by
  obtain ⟨p, hp⟩ : ∃ p, strchr (t ++ '\x00' :: tail) '\x00' = some p := by
    rcases strchr_cases t '\x00' with hnone | ⟨a, b, ha, rfl⟩
    · exact ⟨_, strchr_append hnone⟩
    · rw [List.append_assoc, List.cons_append]
      exact ⟨_, strchr_append ha⟩
  rw [readString, hp, Option.map_some, takeWhile_append_stop (by decide)]

theorem readString_append {t : Text} (h : '\x00' ∉ t) (tail : List Char) :
    readString (t ++ '\x00' :: tail) = some t := by
  rw [readString_nul, List.takeWhile_eq_self_iff.2]
  intro c hc
  simp only [ne_eq, decide_eq_true_eq]
  exact fun heq => h (heq ▸ hc)

/-- An empty string is a NUL. -/
theorem readString_eq_nil (mem : List Char) :
    readString mem = some [] ↔ mem.head? = some '\x00' := by
  cases mem with
  | nil => simp [readString, strchr]
  | cons c mem =>
    by_cases hc : c = '\x00'
    · rw [hc]
      simp only [List.head?_cons, iff_true]
      exact readString_append (t := []) (by simp) mem
    · have hread : readString (c :: mem) ≠ some [] := by
        unfold readString
        cases strchr (c :: mem) '\x00' with
        | none => simp
        | some pos => simp [hc]
      simp [hread, hc]

/-- The elements that are no options are copied. -/
theorem transformFrom_block (data : Text) (s : Scan) :
    (transformFrom data s).block =
      putAll ((elements data).filter fun e => (lookup e).isNone) s.block := by
  have hfold (es : List Text) (s : Scan) :
      (es.foldl Scan.step s).block = putAll (es.filter fun e => (lookup e).isNone) s.block := by
    induction es generalizing s with
    | nil => rfl
    | cons e es ih =>
      rw [List.foldl_cons, ih]
      unfold Scan.step
      cases hlookup : lookup e with
      | none => simp [hlookup, putAll]
      | some opt => simp [hlookup]
  rw [transformFrom_eq, hfold]

theorem transformOptionList_block (malloc : Nat → List Char) (info : MountInfo) :
    (transformOptionList malloc info).dataParsed =
      (putAll ((elements info.data).filter fun e => (lookup e).isNone)
        (some ⟨malloc info.data.length, 0⟩)).bind fun b => readString b.mem := by
  unfold transformOptionList
  simp only
  rw [transformFrom_block]

theorem others_eq {data : Text} (h : Exact (elements data)) :
    (elements data).filter (fun e => (lookup e).isNone) = others data := by
  have helements : (elements data).filter (fun e => (lookup e).isNone) =
      (elements data).filter fun e => !e.isEmpty && (named e).isNone := by
    refine List.filter_congr fun e he => ?_
    have hne : e.isEmpty = false := by
      rw [List.isEmpty_eq_false_iff]
      rintro rfl
      exact h.ne_nil he
    rw [hne]
    by_cases huser : e = user
    · subst huser
      decide
    · rw [lookup_eq_named h he huser]
      rfl
  rw [helements, others]
  rcases splitOn_cases data with hsplit | hsplit
  · rw [hsplit]
  · rw [hsplit, List.filter_append]
    simp

theorem mem_intercalate {c : Char} (hc : c ≠ ',') (es : List Text) :
    c ∈ List.intercalate [','] es ↔ ∃ e ∈ es, c ∈ e := by
  induction es with
  | nil => simp [List.intercalate]
  | cons x es ih =>
    cases es with
    | nil => simp [List.intercalate]
    | cons y es =>
      simp only [List.intercalate, List.intersperse, List.flatten_cons, List.mem_append] at ih ⊢
      rw [ih]
      simp [hc]

/-- What is copied is a string if the list is one. -/
theorem others_noNul {data : Text} (h : '\x00' ∉ data) :
    '\x00' ∉ List.intercalate [','] (others data) := by
  rw [mem_intercalate (by decide)]
  rintro ⟨e, he, hnul⟩
  have hdata : '\x00' ∈ List.intercalate [','] (data.splitOn ',') :=
    (mem_intercalate (by decide) _).2 ⟨e, (List.mem_filter.1 he).1, hnul⟩
  rw [List.intercalate_splitOn] at hdata
  exact h hdata

/-- **`data_parsed` is right** if there is memory for it. -/
theorem parsed_iff (malloc : Nat → List Char) (info : MountInfo)
    (hexact : Exact (elements info.data)) (hnul : '\x00' ∉ info.data) :
    (transformOptionList malloc info).dataParsed =
        some (List.intercalate [','] (others info.data)) ↔
      if others info.data = [] then (malloc info.data.length).head? = some '\x00'
      else (List.intercalate [','] (others info.data)).length <
        (malloc info.data.length).length := by
  rw [transformOptionList_block, others_eq hexact]
  generalize hmem : malloc info.data.length = mem
  split
  · rename_i hnil
    rw [hnil]
    exact readString_eq_nil mem
  · rename_i hnil
    have hne : [] ∉ others info.data := by
      intro hin
      have htest := (List.mem_filter.1 hin).2
      simp at htest
    obtain ⟨hfits, hfails⟩ := putAll_spec mem hnil hne
    constructor
    · intro hparsed
      by_contra hle
      rw [hfails (by omega)] at hparsed
      cases hparsed
    · intro hlt
      obtain ⟨b, hb, hholds⟩ := hfits hlt
      obtain ⟨tail, htail⟩ := hholds.text
      rw [hb, Option.bind_some, htail]
      exact readString_append (others_noNul hnul) tail

/-- **An option list means what it says** if and only if it is understood. -/
theorem transformOptionList_meaning_iff (malloc : Nat → List Char) (info : MountInfo)
    (hnul : '\x00' ∉ info.data) :
    Meaning info (transformOptionList malloc info) ↔ Understood malloc info := by
  constructor
  · rintro ⟨hknown, hwords, hparsed⟩
    have hexact := (known_iff _).1 hknown
    rw [transformOptionList_words, wordsBy_splitOn] at hwords
    exact ⟨hexact, (user_iff _ _).1 ((words_iff hexact _).1 hwords),
      (parsed_iff malloc info hexact hnul).1 hparsed⟩
  · rintro ⟨hexact, huser, hmemory⟩
    refine ⟨(known_iff _).2 hexact, ?_, (parsed_iff malloc info hexact hnul).2 hmemory⟩
    rw [transformOptionList_words, wordsBy_splitOn]
    exact (words_iff hexact _).2 ((user_iff _ _).2 huser)

/-- The fields of a line for a `tmpfs`. -/
def tmpfsInfo (data : Text) : MountInfo :=
  fieldsInfo "none".toList "/tmp".toList "tmpfs".toList data

/-- A known and another option. -/
theorem transformOptionList_meaning_uid :
    Meaning (tmpfsInfo "ro,uid=5".toList)
      (transformOptionList zeros (tmpfsInfo "ro,uid=5".toList)) := by
  refine (transformOptionList_meaning_iff zeros (tmpfsInfo "ro,uid=5".toList)
    (by decide)).2 ⟨by decide +kernel, ?_, by decide⟩
  intro pre post hes
  have hmem : user ∈ elements "ro,uid=5".toList := by
    have hmem : user ∈ pre ++ user :: post := by simp
    rwa [← hes] at hmem
  exact absurd hmem (by decide)

/-- An abbreviation is taken for the first option that starts with it. -/
theorem transformOptionList_abbreviation :
    ¬ Meaning (tmpfsInfo "nod,uid=5".toList)
      (transformOptionList zeros (tmpfsInfo "nod,uid=5".toList)) := by
  intro h
  have hknown := (h.known "nod".toList (by decide)).1 (by decide)
  revert hknown
  decide

end SecureMount
