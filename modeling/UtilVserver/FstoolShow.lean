import UtilVserver.FstoolAttr
import UtilVserver.Lib.DecimalText
import UtilVserver.VserverStat

/-!
# `lsxid` and `showattr` (`src/lsxid.c`, `src/showattr.c`)

What the two programs print.  `lsxid` keeps the names of the contexts that it has asked for in a
sorted vector, whose comparison wraps around.

* `lookupContext` — the name of a context, by way of the vector.
* `lsxid`, `showattr` — the programs.
* `Right`, `Small` — the names in the vector are right; no context has been asked for twice.
* `lineOf`, `letter` — the lines that are to be printed, and the letters in them.

Principal results: `lsxid_exact`, `showattr_spec` and `setattr_showattr`.
-/

set_option autoImplicit false

namespace FstoolShow

open CString DecimalText BinarySearch EnscVector FstoolMain FstoolAttr
open Fstool (Call Stat)
open VserverStat (Xid)

/-! ## The names of contexts -/

def VC_NOCTX : Xid := 0xffffffff

structure XidNameMapping where
  xid : Xid
  name : Option Text
  deriving DecidableEq

def cmpMap (xid : Xid) (map : XidNameMapping) : Int := (xid - map.xid).toInt

/-- `xid_name_mapping`, and the contexts that `vc_getVserverByCtx` has been asked for. -/
structure Cache where
  mapping : List XidNameMapping
  asked : List Xid

/-- `plain` is the name that is found for a context without the vector, and `memory` what is in the
memory behind its last slot. -/
def lookupContext (plain : Xid → Option Text) (memory : Nat → XidNameMapping) (xid : Xid)
    (c : Cache) : Option Text × Cache :=
  match (search (cmpMap xid) c.mapping).bind fun res => c.mapping[res]? with
  | some res => (res.name, c)
  | none =>
    let r := insert (cmpMap xid) (memory c.mapping.length) c.mapping
    (plain xid, ⟨r.1.modify r.2 fun _ => ⟨xid, plain xid⟩, c.asked ++ [xid]⟩)

/-! ## `lsxid` -/

/-- The number or the name in its column of 20 places. -/
def column (t : Text) : Text := List.replicate (20 - t.length) ' ' ++ t

def errColumn : Text := "!!ERR!!".toList ++ List.replicate 13 ' '

/-- `iattr` is what `vc_get_iattr` leaves in the context and in the mask. -/
def getFileContext (iattr : Call → Xid × BitVec 32) (c : Call) : Xid :=
  if (iattr c).2 &&& VC_IATTR_XID ≠ 0 then (iattr c).1 else VC_NOCTX

/-- What is in front of the name of the file. -/
def contextColumn (plain : Xid → Option Text) (memory : Nat → XidNameMapping) (args : Arguments)
    (ctx : Xid) (s : Cache) : Text × Cache :=
  if ctx = VC_NOCTX then (errColumn, s)
  else if args.do_mapping then
    match lookupContext plain memory ctx s with
    | (some vname, s) => (column vname, s)
    | (none, s) => (column (decimal ctx.toNat), s)
  else (column (decimal ctx.toNat), s)

/-- What has been printed, and the vector. -/
abbrev Shown := Text × Cache

/-- `handleFile` of `lsxid`. -/
def lsxidFile (plain : Xid → Option Text) (memory : Nat → XidNameMapping)
    (iattr : Call → Xid × BitVec 32) (args : Arguments) : Handler Shown := fun c s =>
  let ctx := getFileContext iattr c
  let r := contextColumn plain memory args ctx s.2
  (ctx != VC_NOCTX, (s.1 ++ (r.1 ++ "  ".toList ++ c.fullName ++ ['\n']), r.2))

/-- Without a file, the working directory `dot` is taken. -/
def filesOr (dot : Root) (roots : List Root) : List Root := if roots = [] then [dot] else roots

def lsxid (plain : Xid → Option Text) (memory : Nat → XidNameMapping)
    (iattr : Call → Xid × BitVec 32) (opts : List Opt) (dot : Root) (roots : List Root) :
    Nat × Shown :=
  match options opts with
  | none => (1, [], ⟨[], []⟩)
  | some args =>
    fstool (lsxidFile plain memory iattr args) args (filesOr dot roots) ([], ⟨[], []⟩)

/-! ## `showattr` -/

def MARKER : Text := ".......x....ciub............mhwa".toList

def usedFlags : BitVec 32 :=
  VC_IATTR_XID ||| VC_IATTR_ADMIN ||| VC_IATTR_WATCH ||| VC_IATTR_HIDE ||| VC_IATTR_BARRIER |||
    VC_IATTR_IUNLINK ||| VC_IATTR_IMMUTABLE ||| VC_IATTR_WRITE ||| VC_IATTR_COW

/-- The loop over the bits, of which `n` are left. -/
def flagLoop : Nat → Nat → BitVec 32 → BitVec 32 → BitVec 32 → Text
  | 0, _, _, _, _ => []
  | n + 1, i, used_flags, flags, mask =>
    (if used_flags &&& 1 ≠ 0 then
      [if mask &&& 1 = 0 then '-'
        else if flags &&& 1 ≠ 0 then (charAt MARKER (31 - i)).toUpper
        else charAt MARKER (31 - i)]
    else []) ++ flagLoop n (i + 1) (used_flags >>> 1) (flags >>> 1) (mask >>> 1)

/-- The ten characters; behind the constant that is copied when there are no flags comes its end and
one byte that is not part of it. -/
def flagColumn (kn : Kernel) (behind : Char) (s : Attrs) (c : Call) : Text :=
  if kn.gets (key c.target) then
    flagLoop 32 0 usedFlags (s (key c.target)).flags (kn.known (key c.target)) ++ [' ']
  else "ERR    ".toList ++ [Char.ofNat 0, behind, ' ']

/-- `handleFile` of `showattr`. -/
def showattrFile (kn : Kernel) (behind : Char) (s : Attrs) : Handler Text := fun c out =>
  (kn.gets (key c.target), out ++ (flagColumn kn behind s c ++ c.fullName ++ ['\n']))

def showattr (kn : Kernel) (behind : Char) (s : Attrs) (opts : List Opt) (dot : Root)
    (roots : List Root) : Nat × Text :=
  match options opts with
  | none => (1, [])
  | some args => fstool (showattrFile kn behind s) args (filesOr dot roots) []

/-! ## The vector -/

/-- The comparison is the one of the contexts in `vserver-stat`. -/
def entryOf (map : XidNameMapping) : VserverStat.XidData := ⟨map.xid, 0, 0, 0, 0, 0, 0⟩

theorem cmpMap_eq (xid : Xid) (map : XidNameMapping) :
    cmpMap xid map = VserverStat.cmpData xid (entryOf map) := rfl

/-- What one question does: a name of the vector, or the plain one, which gets its slot. -/
theorem lookupContext_cases (plain : Xid → Option Text) (memory : Nat → XidNameMapping) (xid : Xid)
    (c : Cache) :
    (∃ map ∈ c.mapping, map.xid = xid ∧ lookupContext plain memory xid c = (map.name, c)) ∨
    (search (cmpMap xid) c.mapping = none ∧ ∃ pre post, c.mapping = pre ++ post ∧
      (∀ map ∈ pre, 0 ≤ cmpMap xid map) ∧ (∀ map ∈ post.head?, cmpMap xid map < 0) ∧
      lookupContext plain memory xid c =
        (plain xid, ⟨pre ++ ⟨xid, plain xid⟩ :: post, c.asked ++ [xid]⟩)) := by
  unfold lookupContext
  cases hsearch : search (cmpMap xid) c.mapping with
  | some res =>
    obtain ⟨map, hmap, hzero⟩ := bsearch_some hsearch
    refine Or.inl ⟨map, List.mem_of_getElem? hmap, ?_, ?_⟩
    · rw [cmpMap_eq] at hzero
      exact VserverStat.cmpData_zero hzero
    · rw [Option.bind_some, hmap]
  | none =>
    obtain ⟨pre, post, hvec, hins, hpre, hpost⟩ :=
      insert_spec (cmpMap xid) (memory c.mapping.length) c.mapping
    refine Or.inr ⟨rfl, pre, post, hvec, hpre, hpost, ?_⟩
    rw [Option.bind_none]
    dsimp only
    rw [hins, modify_append]

/-- All names are right. -/
def Right (plain : Xid → Option Text) (c : Cache) : Prop :=
  ∀ map ∈ c.mapping, map.name = plain map.xid

/-- **The vector changes no answer**, even where the comparison wraps around. -/
theorem lookupContext_right {plain : Xid → Option Text} {c : Cache} (hc : Right plain c)
    (memory : Nat → XidNameMapping) (xid : Xid) :
    (lookupContext plain memory xid c).1 = plain xid ∧
      Right plain (lookupContext plain memory xid c).2 := by
  obtain ⟨map, hmap, rfl, heq⟩ | ⟨-, pre, post, hvec, -, -, heq⟩ :=
    lookupContext_cases plain memory xid c
  · rw [heq]
    exact ⟨hc map hmap, hc⟩
  · rw [heq]
    refine ⟨rfl, fun map hmap => ?_⟩
    obtain hmap | hmap := List.mem_append.1 hmap
    · exact hc map (by rw [hvec]; exact List.mem_append_left _ hmap)
    obtain rfl | hmap := List.mem_cons.1 hmap
    · rfl
    · exact hc map (by rw [hvec]; exact List.mem_append_right _ hmap)

/-- The contexts of the vector are sorted and have been asked for once. -/
structure Small (c : Cache) : Prop where
  sorted : c.mapping.Pairwise fun a b => a.xid.toNat < b.xid.toNat
  below : ∀ map ∈ c.mapping, map.xid.toNat < 2 ^ 31
  perm : c.asked.Perm (c.mapping.map XidNameMapping.xid)

theorem Small.nodup {c : Cache} (h : Small c) : c.asked.Nodup := by
  rw [h.perm.nodup_iff, List.nodup_iff_pairwise_ne, List.pairwise_map]
  refine h.sorted.imp fun {a b} hlt heq => ?_
  rw [heq] at hlt
  exact Nat.lt_irrefl _ hlt

/-- **Small contexts are asked for once.** -/
theorem lookupContext_small {c : Cache} (hc : Small c) (plain : Xid → Option Text)
    (memory : Nat → XidNameMapping) {xid : Xid} (hxid : xid.toNat < 2 ^ 31) :
    Small (lookupContext plain memory xid c).2 ∧
      ∀ x, x ∈ (lookupContext plain memory xid c).2.asked ↔ x ∈ c.asked ∨ x = xid := by
  have hmem : ∀ {map}, map ∈ c.mapping → map.xid ∈ c.asked := fun hmap =>
    hc.perm.mem_iff.2 (List.mem_map_of_mem hmap)
  obtain ⟨map, hmap, rfl, heq⟩ | ⟨hnone, pre, post, hvec, hpre, hpost, heq⟩ :=
    lookupContext_cases plain memory xid c
  · rw [heq]
    refine ⟨hc, fun x => ⟨Or.inl, fun hx => ?_⟩⟩
    obtain hx | rfl := hx
    · exact hx
    · exact hmem hmap
  · have hagrees : Agrees (cmpMap xid) (fun map : XidNameMapping => map.xid.toNat) xid.toNat
        c.mapping := by
      intro map hmap
      have hnear : VserverStat.Near xid (entryOf map).xid := by
        have hbelow := hc.below map hmap
        constructor
        · exact Nat.lt_of_le_of_lt (Nat.sub_le _ _) hxid
        · exact Nat.lt_of_le_of_lt (Nat.sub_le _ _) hbelow
      have hdiff : cmpMap xid map = (xid.toNat : Int) - map.xid.toNat :=
        (cmpMap_eq xid map).trans (VserverStat.cmpData_near hnear)
      dsimp only
      rw [hdiff]
      constructor
      · omega
      · omega
    have hnew := bsearch_none hc.sorted hagrees hnone
    have hsorted := hc.sorted
    rw [hvec] at hsorted hagrees hnew
    obtain ⟨hbelow, habove⟩ := insert_between hsorted hagrees hnew hpre hpost
    rw [heq]
    refine ⟨⟨sorted_put hsorted hbelow habove, fun map hmap => ?_, ?_⟩, fun x => ?_⟩
    · obtain hmap | hmap := List.mem_append.1 hmap
      · exact hc.below map (by rw [hvec]; exact List.mem_append_left _ hmap)
      obtain rfl | hmap := List.mem_cons.1 hmap
      · exact hxid
      · exact hc.below map (by rw [hvec]; exact List.mem_append_right _ hmap)
    · have hperm := hc.perm
      rw [hvec, List.map_append] at hperm
      dsimp only
      rw [List.map_append, List.map_cons]
      exact (List.perm_append_comm.trans (hperm.cons xid)).trans List.perm_middle.symm
    · rw [List.mem_append, List.mem_singleton]

/-! ## `lsxid` prints the plain names -/

/-- The line of a file, without the vector. -/
def lineOf (plain : Xid → Option Text) (iattr : Call → Xid × BitVec 32) (args : Arguments)
    (c : Call) : Text :=
  let ctx := getFileContext iattr c
  let number := column (decimal ctx.toNat)
  let col :=
    if ctx = VC_NOCTX then errColumn
    else if args.do_mapping then ((plain ctx).map column).getD number
    else number
  col ++ "  ".toList ++ c.fullName ++ ['\n']

/-- A file whose context is asked for. -/
def Asks (iattr : Call → Xid × BitVec 32) (args : Arguments) (x : Xid) (c : Call) : Prop :=
  args.do_mapping = true ∧ getFileContext iattr c = x ∧ x ≠ VC_NOCTX

section Lsxid

variable {plain : Xid → Option Text} {memory : Nat → XidNameMapping}
  {iattr : Call → Xid × BitVec 32} {args : Arguments}

theorem lsxidFile_line {s : Shown} (hs : Right plain s.2) (c : Call) :
    (lsxidFile plain memory iattr args c s).2.1 = s.1 ++ lineOf plain iattr args c ∧
      Right plain (lsxidFile plain memory iattr args c s).2.2 := by
  unfold lsxidFile lineOf contextColumn
  dsimp only
  split
  · exact ⟨rfl, hs⟩
  · split
    · obtain ⟨hname, hright⟩ :=
        lookupContext_right hs memory (getFileContext iattr c)
      generalize lookupContext plain memory (getFileContext iattr c) s.2 = r at hname hright ⊢
      obtain ⟨name, cache⟩ := r
      obtain rfl : name = plain (getFileContext iattr c) := hname
      cases plain (getFileContext iattr c) with
      | none => exact ⟨rfl, hright⟩
      | some vname => exact ⟨rfl, hright⟩
    · exact ⟨rfl, hs⟩

/-- **The lines of `lsxid`** are those without the vector. -/
theorem lsxid_lines (cs : List Call) {s : Shown} (hs : Right plain s.2) :
    (answers (lsxidFile plain memory iattr args) cs s).2.1 =
      s.1 ++ cs.flatMap (lineOf plain iattr args) := by
  induction cs generalizing s with
  | nil => exact (List.append_nil _).symm
  | cons c cs ih =>
    obtain ⟨hline, hright⟩ := @lsxidFile_line plain memory iattr args s hs c
    rw [answers_cons, ih hright, hline, List.flatMap_cons, List.append_assoc]

theorem lsxid_answers (cs : List Call) (s : Shown) :
    (answers (lsxidFile plain memory iattr args) cs s).1 =
      cs.map fun c => getFileContext iattr c != VC_NOCTX := by
  induction cs generalizing s with
  | nil => rfl
  | cons c cs ih =>
    rw [answers_cons, ih]
    rfl

theorem lsxidFile_small {s : Shown} (hs : Small s.2) {c : Call}
    (hc : getFileContext iattr c = VC_NOCTX ∨ (getFileContext iattr c).toNat < 2 ^ 31) :
    Small (lsxidFile plain memory iattr args c s).2.2 ∧
      ∀ x, x ∈ (lsxidFile plain memory iattr args c s).2.2.asked ↔
        x ∈ s.2.asked ∨ Asks iattr args x c := by
  unfold lsxidFile contextColumn Asks
  dsimp only
  split
  · rename_i hnoctx
    refine ⟨hs, fun x => ⟨Or.inl, fun hx => hx.resolve_right ?_⟩⟩
    rintro ⟨-, rfl, hne⟩
    exact hne hnoctx
  · rename_i hctx
    split
    · rename_i hmapping
      obtain ⟨hsmall, hasked⟩ :=
        lookupContext_small hs plain memory (hc.resolve_left hctx)
      generalize lookupContext plain memory (getFileContext iattr c) s.2 = r at hsmall hasked ⊢
      obtain ⟨name, cache⟩ := r
      have hiff : ∀ x, x ∈ cache.asked ↔ x ∈ s.2.asked ∨
          args.do_mapping = true ∧ getFileContext iattr c = x ∧ x ≠ VC_NOCTX := by
        intro x
        refine (hasked x).trans (or_congr_right ⟨?_, fun hx => hx.2.1.symm⟩)
        rintro rfl
        exact ⟨hmapping, rfl, hctx⟩
      cases name with
      | none => exact ⟨hsmall, hiff⟩
      | some vname => exact ⟨hsmall, hiff⟩
    · rename_i hmapping
      exact ⟨hs, fun x => ⟨Or.inl, fun hx => hx.resolve_right fun h => hmapping h.1⟩⟩

theorem lsxid_small {cs : List Call} {s : Shown} (hs : Small s.2)
    (hcs : ∀ c ∈ cs, getFileContext iattr c = VC_NOCTX ∨ (getFileContext iattr c).toNat < 2 ^ 31) :
    Small (answers (lsxidFile plain memory iattr args) cs s).2.2 ∧
      ∀ x, x ∈ (answers (lsxidFile plain memory iattr args) cs s).2.2.asked ↔
        x ∈ s.2.asked ∨ ∃ c ∈ cs, Asks iattr args x c := by
  induction cs generalizing s with
  | nil => exact ⟨hs, fun x => by simp⟩
  | cons c cs ih =>
    obtain ⟨hsmall, hasked⟩ :=
      @lsxidFile_small plain memory iattr args s hs c (hcs c List.mem_cons_self)
    obtain ⟨hsmall', hasked'⟩ := ih hsmall fun c' hc' => hcs c' (List.mem_cons_of_mem _ hc')
    rw [answers_cons]
    refine ⟨hsmall', fun x => (hasked' x).trans ?_⟩
    rw [hasked, or_assoc]
    refine or_congr_right ⟨?_, ?_⟩
    · rintro (h | ⟨c', hc', h⟩)
      · exact ⟨c, List.mem_cons_self, h⟩
      · exact ⟨c', List.mem_cons_of_mem _ hc', h⟩
    · rintro ⟨c', hc', h⟩
      obtain rfl | hc' := List.mem_cons.1 hc'
      · exact Or.inl h
      · exact Or.inr ⟨c', hc', h⟩

end Lsxid

theorem small_nil : Small ⟨[], []⟩ where
  sorted := List.Pairwise.nil
  below := fun _ hmap => absurd hmap List.not_mem_nil
  perm := List.Perm.nil

/-- **`lsxid` prints the plain names** for every run, whatever the contexts are.  When these are
small, each context is asked for once, and no other one is. -/
theorem lsxid_exact {opts : List Opt} {args : Arguments} (hopts : options opts = some args)
    (plain : Xid → Option Text) (memory : Nat → XidNameMapping) (iattr : Call → Xid × BitVec 32)
    (dot : Root) (roots : List Root) :
    (lsxid plain memory iattr opts dot roots).2.1 =
      (calls args (filesOr dot roots)).flatMap (lineOf plain iattr args) ∧
    (ErrorsFit args (filesOr dot roots) →
      ((lsxid plain memory iattr opts dot roots).1 = 0 ↔
        (∀ root ∈ filesOr dot roots, Sound args root) ∧
          ∀ c ∈ calls args (filesOr dot roots), getFileContext iattr c ≠ VC_NOCTX)) ∧
    ((∀ c ∈ calls args (filesOr dot roots),
        getFileContext iattr c = VC_NOCTX ∨ (getFileContext iattr c).toNat < 2 ^ 31) →
      (lsxid plain memory iattr opts dot roots).2.2.asked.Nodup ∧
      ∀ x, x ∈ (lsxid plain memory iattr opts dot roots).2.2.asked ↔
        ∃ c ∈ calls args (filesOr dot roots), Asks iattr args x c) := by
  have hrun : lsxid plain memory iattr opts dot roots =
      fstool (lsxidFile plain memory iattr args) args (filesOr dot roots) ([], ⟨[], []⟩) := by
    unfold lsxid
    rw [hopts]
  rw [hrun, fstool_state]
  refine ⟨?_, fun hlen => ?_, fun hsmall => ?_⟩
  · rw [lsxid_lines _ (fun _ hmap => absurd hmap List.not_mem_nil), List.nil_append]
  · rw [fstool_code hlen, lsxid_answers]
    simp only [List.mem_map, forall_exists_index, and_imp, forall_apply_eq_imp_iff₂, bne_iff_ne]
  · obtain ⟨h, hasked⟩ := @lsxid_small plain memory iattr args (calls args (filesOr dot roots))
      ([], ⟨[], []⟩) small_nil hsmall
    refine ⟨h.nodup, fun x => (hasked x).trans ?_⟩
    simp

/-- The files have the context 49, directories the one without a name. -/
def tagOf (c : Call) : Xid × BitVec 32 := (if c.target.isDir then 50 else 49, VC_IATTR_XID)
def nameOf (xid : Xid) : Option Text := if xid = 49 then some ['v'] else none

/-- The context with two files is asked for once. -/
theorem lsxid_links :
    (lsxid nameOf (fun _ => ⟨0, none⟩) tagOf [.R] .missing links).2.1 =
        (calls ⟨true, false, false, true, false, 0, 0, false⟩ links).flatMap
          (lineOf nameOf tagOf ⟨true, false, false, true, false, 0, 0, false⟩) ∧
      (lsxid nameOf (fun _ => ⟨0, none⟩) tagOf [.R] .missing links).1 = 0 ∧
      (lsxid nameOf (fun _ => ⟨0, none⟩) tagOf [.R] .missing links).2.2.asked.Nodup ∧
      49 ∈ (lsxid nameOf (fun _ => ⟨0, none⟩) tagOf [.R] .missing links).2.2.asked := by
  have hopts : options [.R] = some ⟨true, false, false, true, false, 0, 0, false⟩ := rfl
  have hdot : filesOr .missing links = links := rfl
  obtain ⟨hlines, hcode, hasked⟩ :=
    lsxid_exact hopts nameOf (fun _ => ⟨0, none⟩) tagOf .missing links
  rw [hdot] at hlines hcode hasked
  obtain ⟨honce, hall⟩ := hasked (by decide)
  refine ⟨hlines, (hcode (by unfold ErrorsFit; decide)).2 ⟨links_sound (by decide), by decide⟩,
    honce, (hall 49).2 ⟨⟨⟨1, 7, false⟩, "/a".toList⟩, by decide, rfl, by decide, by decide⟩⟩

/-! ## `showattr` shows what `setattr` has done -/

/-- The flags that have a letter, in the order of the letters. -/
def shownBits : List Nat := [0, 1, 2, 3, 16, 17, 18, 19, 24]

/-- The letter of a flag. -/
def letter (known set : Bool) (i : Nat) : Char :=
  if !known then '-' else if set then (charAt MARKER (31 - i)).toUpper else charAt MARKER (31 - i)

theorem flatMap_if {α β : Type} (p : α → Bool) (g : α → β) (l : List α) :
    (l.flatMap fun x => if p x then [g x] else []) = (l.filter p).map g := by
  induction l with
  | nil => rfl
  | cons x l ih =>
    rw [List.flatMap_cons, ih, List.filter_cons]
    cases p x with
    | true => rfl
    | false => rfl

theorem and_one_ne_zero {w : Nat} (x : BitVec w) : x &&& 1 ≠ 0 ↔ x.getLsbD 0 = true := by
  have hbit : ∀ i, (x &&& 1).getLsbD i = (x.getLsbD i && decide (i = 0)) := by
    intro i
    rw [BitVec.getLsbD_and]
    by_cases hi : i < w
    · have hone : (1 : BitVec w).getLsbD i = decide (i = 0) := by
        rw [BitVec.ofNat_eq_ofNat, BitVec.getLsbD_one]
        simp [Nat.lt_of_le_of_lt (Nat.zero_le i) hi]
      rw [hone]
    · rw [BitVec.getLsbD_of_ge x i (Nat.le_of_not_lt hi), Bool.false_and, Bool.false_and]
  constructor
  · intro hne
    by_contra hclear
    refine hne (BitVec.eq_of_getLsbD_eq fun i _ => ?_)
    rw [hbit]
    by_cases hi : i = 0
    · subst hi
      simpa using hclear
    · simp [hi]
  · intro hset hzero
    have h := hbit 0
    rw [hzero, hset] at h
    simp at h

theorem flagLoop_eq (n i : Nat) (used_flags flags mask : BitVec 32) :
    flagLoop n i (used_flags >>> i) (flags >>> i) (mask >>> i) =
      (List.range' i n).flatMap fun j =>
        if used_flags.getLsbD j then [letter (mask.getLsbD j) (flags.getLsbD j) j] else [] := by
  induction n generalizing i with
  | zero => rfl
  | succ n ih =>
    have hshift : ∀ x : BitVec 32, x >>> i >>> 1 = x >>> (i + 1) := fun x =>
      (BitVec.shiftRight_add x i 1).symm
    have hbit : ∀ x : BitVec 32, x >>> i &&& 1 ≠ 0 ↔ x.getLsbD i = true := fun x => by
      rw [and_one_ne_zero, BitVec.getLsbD_ushiftRight, Nat.add_zero]
    have hzero : ∀ x : BitVec 32, x >>> i &&& 1 = 0 ↔ x.getLsbD i = false := fun x => by
      rw [← Bool.not_eq_true, ← hbit, not_not]
    rw [flagLoop, hshift, hshift, hshift, ih, List.range'_succ, List.flatMap_cons]
    simp only [hbit, hzero, letter, Bool.not_eq_true']

/-- The letters of a file. -/
theorem flagLoop_letters (flags mask : BitVec 32) : flagLoop 32 0 usedFlags flags mask =
    shownBits.map fun i => letter (mask.getLsbD i) (flags.getLsbD i) i := by
  have h := flagLoop_eq 32 0 usedFlags flags mask
  have hbits : (List.range' 0 32).filter usedFlags.getLsbD = shownBits := by decide
  rw [flatMap_if, hbits] at h
  exact h

theorem showattr_answers (kn : Kernel) (behind : Char) (s : Attrs) (cs : List Call) (out : Text) :
    answers (showattrFile kn behind s) cs out = (cs.map fun c => kn.gets (key c.target),
      out ++ cs.flatMap fun c => flagColumn kn behind s c ++ c.fullName ++ ['\n']) := by
  induction cs generalizing out with
  | nil => exact Prod.ext rfl (List.append_nil _).symm
  | cons c cs ih =>
    rw [answers_cons, ih, List.map_cons, List.flatMap_cons, ← List.append_assoc]
    rfl

/-- What `showattr` prints, and its exit code. -/
theorem showattr_spec {opts : List Opt} {args : Arguments} (hopts : options opts = some args)
    (kn : Kernel) (behind : Char) (s : Attrs) (dot : Root) (roots : List Root) :
    (showattr kn behind s opts dot roots).2 = ((calls args (filesOr dot roots)).flatMap fun c =>
      flagColumn kn behind s c ++ c.fullName ++ ['\n']) ∧
    (ErrorsFit args (filesOr dot roots) →
      ((showattr kn behind s opts dot roots).1 = 0 ↔
        (∀ root ∈ filesOr dot roots, Sound args root) ∧
          ∀ c ∈ calls args (filesOr dot roots), kn.gets (key c.target) = true)) := by
  have hrun : showattr kn behind s opts dot roots =
      fstool (showattrFile kn behind s) args (filesOr dot roots) [] := by
    unfold showattr
    rw [hopts]
  rw [hrun, fstool_state, showattr_answers]
  refine ⟨List.nil_append _, fun hlen => ?_⟩
  rw [fstool_code hlen, showattr_answers]
  simp only [List.mem_map, forall_exists_index, and_imp, forall_apply_eq_imp_iff₂]

/-- A flag is set behind `setattr`. -/
def setBehind (takes : BitVec 32) (opts : List Opt) (old : Attr) (i : Nat) : Bool :=
  if i ≠ XID_BIT ∧ takes.getLsbD i = true then
    (old.flags.getLsbD i || asked opts i) && !unasked opts i
  else old.flags.getLsbD i

theorem flagged_setBehind {takes : BitVec 32} {opts : List Opt} {old new : Attr}
    (h : Flagged takes opts old new) {i : Nat} (hi : i ∈ shownBits) :
    new.flags.getLsbD i = setBehind takes opts old i := by
  have hlt : i < 32 := by
    have hall : ∀ j ∈ shownBits, j < 32 := by decide
    exact hall i hi
  unfold setBehind
  by_cases hxid : i = XID_BIT
  · rw [if_neg (fun hand => hand.1 hxid), hxid]
    exact h.bit
  · rw [h.flags i hlt hxid]
    simp [hxid]

/-- **`showattr` shows what `setattr` has done**: behind any run of `setattr`, the letters of a file
whose inode was reached and let it be done are those of the flags that were asked for, by whatever
name it was reached; the letters of a file whose inode was not reached are the old ones. -/
theorem setattr_showattr {kn : Kernel} (hkn : kn.Replaces) {opts opts' : List Opt}
    {args args' : Arguments} {roots : List Root} (hopts : options opts = some args)
    (hopts' : options opts' = some args') (hroots : roots ≠ []) (behind : Char) (s : Attrs)
    (dot : Root) (roots' : List Root) :
    (showattr kn behind (setattr kn opts roots s).2 opts' dot roots').2 =
      ((calls args' (filesOr dot roots')).flatMap fun c =>
        flagColumn kn behind (setattr kn opts roots s).2 c ++ c.fullName ++ ['\n']) ∧
    ∀ c ∈ calls args' (filesOr dot roots'),
      (ReachesKey args roots (key c.target) →
        (setCall kn args (key c.target) (s (key c.target))).1 = true →
        kn.gets (key c.target) = true →
        flagColumn kn behind (setattr kn opts roots s).2 c = shownBits.map (fun i =>
          letter ((kn.known (key c.target)).getLsbD i)
            (setBehind (kn.takes (key c.target)) opts (s (key c.target)) i) i) ++ [' ']) ∧
      (¬ ReachesKey args roots (key c.target) →
        flagColumn kn behind (setattr kn opts roots s).2 c = flagColumn kn behind s c) := by
  refine ⟨(showattr_spec hopts' kn behind _ dot roots').1, fun c _ =>
    ⟨fun hreach hset hgets => ?_, fun hreach => ?_⟩⟩
  · unfold flagColumn
    rw [if_pos hgets, flagLoop_letters]
    congr 1
    refine List.map_congr_left fun i hi => ?_
    rw [flagged_setBehind (setattr_flagged hkn hopts hroots hreach hset) hi]
  · unfold flagColumn
    rw [setattr_other hkn hopts hroots s hreach]

/-- The flags are shown with the other name, and no barrier for a file. -/
theorem setattr_showattr_links :
    flagColumn able 'x' (setattr able tried [links.head (List.cons_ne_nil _ _)] immutable).2
      ⟨⟨1, 7, false⟩, "/d/b".toList⟩ = "-----uiCX ".toList := by
  have hopts : options tried = some triedArgs := rfl
  have hopts' : options [.R] = some ⟨true, false, false, true, false, 0, 0, false⟩ := rfl
  have hroots : [links.head (List.cons_ne_nil _ _)] ≠ [] := List.cons_ne_nil _ _
  have h := (setattr_showattr able_replaces hopts hopts' hroots 'x' immutable .missing links).2
    ⟨⟨1, 7, false⟩, "/d/b".toList⟩ (by decide)
  exact (h.1 (Pointwise.mem_keys.1 (by decide)) rfl rfl).trans (by decide)

end FstoolShow
