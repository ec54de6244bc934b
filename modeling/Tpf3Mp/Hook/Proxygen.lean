import Mathlib.Data.List.Nodup
import Tpf3Mp.Codec.Format
import Tpf3Mp.Hook.Pe

/-!
The proxy generator (`tpf3mp-proxygen`): a DLL's export table read from its file image, and the forwarders
written for it. A slot with several names keeps the last, and ordinals are cut to 16 bits. Where neither
matters, every export of the table is forwarded.
-/

namespace Tpf3Mp.Hook
open List

inductive ProxyError where
  | pe (error : PeError)
  | noExports
  | truncated
  | tooManyExports (count : UInt32)
  deriving DecidableEq

structure Export where
  name : Option String
  ordinal : UInt16
  forwarder : Bool
  deriving DecidableEq

structure Exports where
  moduleName : String
  base : UInt32
  entries : List Export
  deriving DecidableEq

def maxExports : UInt32 := 0x40000

def exportDirectory (image : Bytes) : Option (UInt32 × UInt32) := do
  let peOff ← readU32 image 0x3c
  let optional := peOff.toNat + 4 + 20
  let magic ← readU16 image optional
  if magic ≠ 0x20b then failure
  let count ← readU32 image (optional + 108)
  if count < 1 then failure
  let entry := optional + 112
  return (← readU32 image entry, ← readU32 image (entry + 4))

/-- Where an address lies in the file. A section whose end is past 32 bits ends the search. -/
def rvaToOffset : List Section → UInt32 → Option Nat
  | [], _ => none
  | s :: rest, rva =>
    let start := s.virtualAddress
    let virtualEnd := start.toNat + max s.virtualSize.toNat s.sizeOfRawData.toNat
    if virtualEnd ≥ 2 ^ 32 then none
    else if start ≤ rva ∧ rva.toNat < virtualEnd then
      let delta := rva - start
      if delta < s.sizeOfRawData then some (s.pointerToRawData + delta).toNat else none
    else rvaToOffset rest rva

def readCstr (bytes : Bytes) (offset : Nat) : String := fromUtf8Lossy (untilZero (bytes.drop offset))

structure Directory where
  sections : List Section
  rva : UInt32
  size : UInt32
  moduleName : String
  base : UInt32
  functionCount : UInt32
  nameCount : UInt32
  functionsOff : Nat
  namesOff : Option Nat
  ordinalsOff : Option Nat
  deriving DecidableEq

/-- The first half of `parse_exports`. -/
def readDirectory (image : Bytes) : Except ProxyError Directory := do
  let pe ← (PeHeaders.parse image).mapError .pe
  let (rva, size) ← okOr (exportDirectory image) .noExports
  if rva = 0 ∨ size = 0 then throw .noExports
  let dir ← okOr (rvaToOffset pe.sections rva) .truncated
  let header ← okOr (slice image dir 40) .truncated
  let field (offset : Nat) := (readU32 header offset).getD 0
  let nameRva := field 12
  let base := field 16
  let functionCount := field 20
  let nameCount := field 24
  let functionsRva := field 28
  let namesRva := field 32
  let ordinalsRva := field 36
  if functionCount > maxExports ∨ nameCount > maxExports then throw (.tooManyExports (max functionCount nameCount))
  let moduleName := ((rvaToOffset pe.sections nameRva).map (readCstr image)).getD ""
  let functionsOff ← okOr (rvaToOffset pe.sections functionsRva) .truncated
  return {
    sections := pe.sections
    rva
    size
    moduleName
    base
    functionCount
    nameCount
    functionsOff
    namesOff := rvaToOffset pe.sections namesRva
    ordinalsOff := rvaToOffset pe.sections ordinalsRva }

namespace Directory

def functionAt (d : Directory) (image : Bytes) (index : Nat) :
    Option UInt32 := readU32 image (d.functionsOff + index * 4)

def slotAt (image : Bytes) (ordinalsOff i : Nat) : Option UInt16 := readU16 image (ordinalsOff + i * 2)

def nameAt (d : Directory) (image : Bytes) (namesOff i : Nat) : Option String :=
  (readU32 image (namesOff + i * 4)).map fun namePtr =>
    ((rvaToOffset d.sections namePtr).map (readCstr image)).getD ""

def takeName (d : Directory) (image : Bytes) (namesOff ordinalsOff : Nat) (nameOf : List (Option String)) (i : Nat) :
    Except ProxyError (List (Option String)) := do
  let name ← okOr (d.nameAt image namesOff i) .truncated
  let slot ← okOr (slotAt image ordinalsOff i) .truncated
  return nameOf.set slot.toNat (some name)

def readNames (d : Directory) (image : Bytes) : Except ProxyError (List (Option String)) :=
  let nameOf := replicate d.functionCount.toNat none
  match d.namesOff, d.ordinalsOff with
  | some namesOff, some ordinalsOff =>
    (range d.nameCount.toNat).foldlM (d.takeName image namesOff ordinalsOff) nameOf
  | _, _ => .ok nameOf

/-- One round over the function table; an empty slot has no entry. -/
def takeFunction (d : Directory) (image : Bytes) (nameOf : List (Option String)) (entries : List Export) (index : Nat) :
    Except ProxyError (List Export) := do
  let functionRva ← okOr (d.functionAt image index) .truncated
  if functionRva = 0 then return entries
  let ordinal := d.base + UInt32.ofNat index
  return entries ++ [{
    name := nameOf[index]?.join
    ordinal := ordinal.toUInt16
    forwarder := d.rva ≤ functionRva ∧ functionRva < d.rva + d.size }]

end Directory

def parseExports (image : Bytes) : Except ProxyError Exports := do
  let d ← readDirectory image
  let nameOf ← d.readNames image
  let entries ← (range d.functionCount.toNat).foldlM (d.takeFunction image nameOf) []
  return { moduleName := d.moduleName, base := d.base, entries }

structure ProxyFiles where
  definitions : String
  defFileName : String
  cargoToml : String
  libRs : String
  deriving DecidableEq

def definition (realStem : String) (name : Option String) (ordinal : Nat) : String :=
  match name with
  | some name => "    " ++ name ++ "=" ++ realStem ++ "." ++ name ++ "\n"
  | none =>
    let ord := toString ordinal
    "    proxy_ordinal_" ++ ord ++ "=" ++ realStem ++ ".#" ++ ord ++ " @" ++ ord ++ " NONAME\n"

def directive (realStem : String) (name : Option String) (ordinal : Nat) : String :=
  match name with
  | some name => " /EXPORT:" ++ name ++ "=" ++ realStem ++ "." ++ name
  | none =>
    let ord := toString ordinal
    " /EXPORT:proxy_ordinal_" ++ ord ++ "=" ++ realStem ++ ".#" ++ ord ++ ",@" ++ ord ++ ",NONAME"

def isAsciiAlphanumeric (c : Char) : Bool :=
  ('0' ≤ c && c ≤ '9') || ('a' ≤ c && c ≤ 'z') || ('A' ≤ c && c ≤ 'Z')

def sanitizeIdent (stem : String) : String :=
  let out := stem.toList.map fun c => if isAsciiAlphanumeric c then c else '_'
  String.ofList (if out.head?.any fun c => '0' ≤ c && c ≤ '9' then '_' :: out else out)

def generate (exports : Exports) (proxyStem realStem : String) : ProxyFiles :=
  let libName := sanitizeIdent proxyStem
  let defFileName := proxyStem ++ ".def"
  let header := "; Generated by tpf3mp-proxygen. Every export forwards to the\n; renamed original (" ++ realStem ++
    ".dll).\nEXPORTS\n"
  let lines := exports.entries.map fun entry => definition realStem entry.name entry.ordinal.toNat
  let directives := String.join (exports.entries.map fun entry => directive realStem entry.name entry.ordinal.toNat)
  { definitions := header ++ String.join lines
    defFileName
    cargoToml := "[package]\nname = \"" ++ proxyStem ++ "-proxy\"\nversion = \"0.0.0\"\nedition = \"2021\"\n" ++
      "publish = false\n\n[lib]\nname = \"" ++ libName ++ "\"\ncrate-type = [\"cdylib\"]\n"
    libRs := "//! Generated proxy for `" ++ proxyStem ++ ".dll`, forwarding every export to\n//! `" ++ realStem ++
      ".dll`. Rename the stock `" ++ proxyStem ++ ".dll` to\n//! `" ++ realStem ++ ".dll` and drop the built `" ++
      proxyStem ++ ".dll` beside it.\n//!\n" ++
      "//! The export forwarders are emitted as `/EXPORT` linker directives in\n" ++
      "//! the `.drectve` section (mirroring `" ++ defFileName ++ "`). Add a `DllMain`\n" ++
      "//! here if the proxy also needs to bootstrap the hook.\n\n#[used]\n#[unsafe(link_section = \".drectve\")]\n" ++
      "static EXPORT_DIRECTIVES: [u8; " ++ toString directives.utf8ByteSize ++ "] = *b\"" ++ directives ++ "\";\n" }

structure Forwards (files : ProxyFiles) (realStem : String) (name : Option String) (ordinal : Nat) : Prop where
  defined : (definition realStem name ordinal).toList <:+: files.definitions.toList
  directed : (directive realStem name ordinal).toList <:+: files.libRs.toList

theorem infix_join {part : String} {parts : List String} {before after : String} (member : part ∈ parts) :
    part.toList <:+: (before ++ String.join parts ++ after).toList := by
  rw [String.toList_append, String.toList_append, String.toList_join, List.flatMap]
  have inside := infix_of_mem_flatten (mem_map_of_mem (f := String.toList) member)
  exact inside.trans (infix_append _ _ _)

theorem generate_forwards {exports : Exports} {entry : Export} (proxyStem realStem : String)
    (member : entry ∈ exports.entries) :
    Forwards (generate exports proxyStem realStem) realStem entry.name entry.ordinal.toNat := by
  constructor
  · have text : ∃ before, (generate exports proxyStem realStem).definitions = before ++ String.join
        (exports.entries.map fun entry => definition realStem entry.name entry.ordinal.toNat) ++ "" :=
      ⟨_, String.append_empty.symm⟩
    obtain ⟨before, text⟩ := text
    rw [text]
    exact infix_join (mem_map_of_mem member)
  · have text : ∃ before after, (generate exports proxyStem realStem).libRs = before ++ String.join
        (exports.entries.map fun entry => directive realStem entry.name entry.ordinal.toNat) ++ after :=
      ⟨_, _, rfl⟩
    obtain ⟨before, after, text⟩ := text
    exact infix_join (mem_map_of_mem member)

namespace Directory

def used (d : Directory) (image : Bytes) (index : Nat) : Bool :=
  index < d.functionCount.toNat && d.functionAt image index ≠ some 0

section Loops
variable {d : Directory} {image : Bytes} {namesOff ordinalsOff : Nat}

/-- The entry `i` of the name table, for a slot and with a name. -/
structure Entry (d : Directory) (image : Bytes) (namesOff ordinalsOff i : Nat) (slot : UInt16) (name : String) :
    Prop where
  placed : slotAt image ordinalsOff i = some slot
  named : d.nameAt image namesOff i = some name

theorem Entry.unique {i : Nat} {slot slot' : UInt16} {name name' : String}
    (entry : d.Entry image namesOff ordinalsOff i slot name)
    (entry' : d.Entry image namesOff ordinalsOff i slot' name') : slot = slot' ∧ name = name' :=
  ⟨Option.some.inj (entry.placed.symm.trans entry'.placed), Option.some.inj (entry.named.symm.trans entry'.named)⟩

variable {nameOf : List (Option String)}

theorem takeName_ok {nameOf' : List (Option String)} {i : Nat}
    (step : d.takeName image namesOff ordinalsOff nameOf i = .ok nameOf') :
    ∃ slot name, d.Entry image namesOff ordinalsOff i slot name ∧ nameOf' = nameOf.set slot.toNat (some name) := by
  obtain ⟨name, named, step⟩ := Run.bind_ok.mp step
  obtain ⟨slot, placed, step⟩ := Run.bind_ok.mp step
  cases step
  exact ⟨slot, name, ⟨okOr_ok.mp placed, okOr_ok.mp named⟩, rfl⟩

/-- The entry `i` is the last of the first `n` for its slot. -/
def LastFor (d : Directory) (image : Bytes) (namesOff ordinalsOff n i : Nat) (slot : UInt16) (name : String) : Prop :=
  i < n ∧ d.Entry image namesOff ordinalsOff i slot name ∧
    ∀ k < n, ∀ other, d.Entry image namesOff ordinalsOff k slot other → k ≤ i

/-- What the rounds over the name table leave in a slot: the name of the last entry for it, if there is one. -/
theorem takeName_run {size n : Nat}
    (run : (range n).foldlM (d.takeName image namesOff ordinalsOff) (replicate size none) = .ok nameOf) :
    nameOf.length = size ∧ (∀ i < n, ∃ slot name, d.Entry image namesOff ordinalsOff i slot name) ∧
    ∀ index < size,
      (∃ i slot name, d.LastFor image namesOff ordinalsOff n i slot name ∧ slot.toNat = index ∧
        nameOf[index]? = some (some name)) ∨
      (∀ i < n, ∀ slot name, d.Entry image namesOff ordinalsOff i slot name → slot.toNat ≠ index) ∧
        nameOf[index]? = some none := by
  induction n generalizing nameOf with
  | zero =>
    cases run
    refine ⟨length_replicate .., fun i none => absurd none (Nat.not_lt_zero i), fun index inside => .inr ?_⟩
    exact ⟨fun i none => absurd none (Nat.not_lt_zero i), getElem?_replicate_of_lt inside⟩
  | succ n ih =>
    rw [range_succ, foldlM_append] at run
    obtain ⟨middle, before, step⟩ := Run.bind_ok.mp run
    simp only [foldlM_cons, foldlM_nil, bind_pure] at step
    obtain ⟨at_, called, entry, rfl⟩ := takeName_ok step
    obtain ⟨long, read, slots⟩ := ih before
    refine ⟨by rw [length_set, long], ?_, fun index inside => ?_⟩
    · exact Nat.forall_lt_succ_right.mpr ⟨read, at_, called, entry⟩
    by_cases here : at_.toNat = index
    · refine .inl ⟨n, at_, called, ⟨Nat.lt_succ_self n, entry, fun k below _ _ => Nat.lt_succ_iff.mp below⟩, here, ?_⟩
      rw [here, getElem?_set_self (by rwa [long])]
    rw [getElem?_set_ne here]
    rcases slots index inside with ⟨i, slot, name, ⟨below, at_i, last⟩, same, kept⟩ | ⟨free, kept⟩
    · refine .inl ⟨i, slot, name, ⟨Nat.lt_succ_of_lt below, at_i, ?_⟩, same, kept⟩
      refine Nat.forall_lt_succ_right.mpr ⟨last, fun other again => ?_⟩
      exact absurd ((entry.unique again).1 ▸ same) here
    · refine .inr ⟨Nat.forall_lt_succ_right.mpr ⟨free, fun slot name again => ?_⟩, kept⟩
      exact (entry.unique again).1 ▸ here

def entryAt (d : Directory) (image : Bytes) (nameOf : List (Option String)) (index : Nat) : Export where
  name := nameOf[index]?.join
  ordinal := (d.base + UInt32.ofNat index).toUInt16
  forwarder := (d.functionAt image index).any fun address => d.rva ≤ address ∧ address < d.rva + d.size

theorem takeFunction_run {found found' : List Export} {indices : List Nat}
    (inside : ∀ index ∈ indices, index < d.functionCount.toNat)
    (run : indices.foldlM (d.takeFunction image nameOf) found = .ok found') :
    found' = found ++ (indices.filter (d.used image)).map (d.entryAt image nameOf) := by
  induction indices generalizing found with
  | nil =>
    cases run
    exact (append_nil _).symm
  | cons first indices ih =>
    obtain ⟨middle, step, rest⟩ := Run.bind_ok.mp run
    obtain ⟨address, read, step⟩ := Run.bind_ok.mp step
    have here : d.functionAt image first = some address := okOr_ok.mp read
    have below := inside first mem_cons_self
    rw [ih (fun index among => inside index (mem_cons_of_mem _ among)) rest]
    split at step
    · next empty =>
      cases step
      rw [filter_cons_of_neg (by simp [used, here, empty])]
    rename_i occupied
    cases step
    rw [filter_cons_of_pos (by simp [used, here, occupied, below]), map_cons, append_assoc]
    simp [entryAt, here]

theorem ordinal_exact {index : Nat} (nameOf : List (Option String)) :
    (d.entryAt image nameOf index).ordinal.toNat = d.base.toNat + index ↔ d.base.toNat + index < 2 ^ 16 := by
  constructor
  · intro exact_
    exact exact_ ▸ UInt16.toNat_lt _
  · intro fits
    have small : index < UInt32.size := lt_trans (lt_of_le_of_lt (Nat.le_add_left _ _) fits) (by decide)
    show (d.base + UInt32.ofNat index).toUInt16.toNat = _
    rw [UInt32.toNat_toUInt16, UInt32.toNat_add, UInt32.toNat_ofNat_of_lt' small]
    omega

end Loops

end Directory

theorem parseExports_ok {image : Bytes} {exports : Exports} {d : Directory} (parsed : parseExports image = .ok exports)
    (directory : readDirectory image = .ok d) : ∃ nameOf, d.readNames image = .ok nameOf ∧
      exports.entries = ((range d.functionCount.toNat).filter (d.used image)).map (d.entryAt image nameOf) := by
  obtain ⟨d', same, parsed⟩ := Run.bind_ok.mp parsed
  obtain rfl := Except.ok.inj (same.symm.trans directory)
  obtain ⟨nameOf, named, parsed⟩ := Run.bind_ok.mp parsed
  obtain ⟨entries, listed, parsed⟩ := Run.bind_ok.mp parsed
  obtain rfl := Except.ok.inj parsed
  exact ⟨nameOf, named, Directory.takeFunction_run (fun _ => mem_range.mp) listed⟩

/-- Each entry is forwarded in both texts. Every name of a slot in use has an entry exactly if each of these
names is that of a slot's last entry in the name table, and every slot in use that has no name has an entry
with its ordinal exactly if the ordinal fits 16 bits. -/
theorem exports_forwarded {image : Bytes} {exports : Exports} {d : Directory} {namesOff ordinalsOff : Nat}
    (proxyStem realStem : String) (parsed : parseExports image = .ok exports) (directory : readDirectory image = .ok d)
    (names : d.namesOff = some namesOff) (ordinals : d.ordinalsOff = some ordinalsOff) :
    (∀ entry ∈ exports.entries,
      Forwards (generate exports proxyStem realStem) realStem entry.name entry.ordinal.toNat) ∧
    (∀ i < d.nameCount.toNat, ∃ slot name, d.Entry image namesOff ordinalsOff i slot name) ∧
    ((∀ i < d.nameCount.toNat, ∀ slot name, d.Entry image namesOff ordinalsOff i slot name →
        d.used image slot.toNat → ∃ entry ∈ exports.entries, entry.name = some name) ↔
      ∀ i < d.nameCount.toNat, ∀ slot name, d.Entry image namesOff ordinalsOff i slot name →
        d.used image slot.toNat → ∃ j slot', d.used image slot'.toNat ∧
          d.LastFor image namesOff ordinalsOff d.nameCount.toNat j slot' name) ∧
    ∀ index, d.used image index →
      (∀ i < d.nameCount.toNat, ∀ slot name, d.Entry image namesOff ordinalsOff i slot name →
        slot.toNat ≠ index) →
      ((∃ entry ∈ exports.entries, entry.name = none ∧ entry.ordinal.toNat = d.base.toNat + index) ↔
        d.base.toNat + index < 2 ^ 16) := by
  obtain ⟨nameOf, named, all⟩ := parseExports_ok parsed directory
  unfold Directory.readNames at named
  rw [names, ordinals] at named
  obtain ⟨long, read, slots⟩ := Directory.takeName_run named
  have below {index : Nat} (used : d.used image index) : index < d.functionCount.toNat :=
    of_decide_eq_true (Bool.and_eq_true_iff.mp used).1
  have mem {entry : Export} : entry ∈ exports.entries ↔
      ∃ index, d.used image index ∧ d.entryAt image nameOf index = entry := by
    rw [all, mem_map]
    exact exists_congr fun index => and_congr_left fun _ =>
      ⟨fun among => (mem_filter.mp among).2, fun used => mem_filter.mpr ⟨mem_range.mpr (below used), used⟩⟩
  refine ⟨fun entry => generate_forwards proxyStem realStem, read, ?_, fun index used free => ?_⟩
  · constructor
    · intro forwarded i inside slot name entry used
      obtain ⟨_, among, same⟩ := forwarded i inside slot name entry used
      obtain ⟨index, used', rfl⟩ := mem.mp among
      rcases slots index (below used') with ⟨j, slot', name', last, rfl, kept⟩ | ⟨_, kept⟩
      · obtain rfl : name' = name := by simpa [Directory.entryAt, kept] using same
        exact ⟨j, slot', used', last⟩
      · simp [Directory.entryAt, kept] at same
    · intro lasts i inside slot name entry used
      obtain ⟨j, slot', used', inside', entry', last⟩ := lasts i inside slot name entry used
      refine ⟨_, mem.mpr ⟨slot'.toNat, used', rfl⟩, ?_⟩
      rcases slots slot'.toNat (below used') with ⟨k, slot'', name', ⟨inside'', entry'', last'⟩, same, kept⟩ | ⟨free, _⟩
      · obtain rfl := UInt16.toNat_inj.mp same
        obtain rfl := le_antisymm (last k inside'' _ entry'') (last' j inside' _ entry')
        rw [(entry'.unique entry'').2]
        simp [Directory.entryAt, kept]
      · exact absurd rfl (free j inside' slot' name entry')
  · constructor
    · rintro ⟨entry, _, _, exact_⟩
      exact exact_ ▸ UInt16.toNat_lt _
    · intro fits
      refine ⟨_, mem.mpr ⟨index, used, rfl⟩, ?_, (Directory.ordinal_exact nameOf).mpr fits⟩
      rcases slots index (below used) with ⟨k, slot, name, ⟨inside, entry, _⟩, same, _⟩ | ⟨_, kept⟩
      · exact absurd same (free k inside slot name entry)
      · simp [Directory.entryAt, kept]

/-- A library of two functions from ordinal 1 on, and the names `a` and `b` for the slots given. -/
def sampleDll (first second : UInt8) : Bytes :=
  [0x4d, 0x5a] ++ replicate 58 0 ++ Codec.le32 0x40 ++
  [0x50, 0x45, 0, 0] ++ [0x64, 0x86, 1, 0] ++ replicate 12 0 ++ [120, 0, 0, 0] ++
  [0x0b, 0x02] ++ replicate 106 0 ++ Codec.le32 1 ++ Codec.le32 0x1000 ++ Codec.le32 0x40 ++
  [0x2e, 0x72, 0x64, 0x61, 0x74, 0x61, 0, 0] ++ Codec.le32 0x100 ++ Codec.le32 0x1000 ++ Codec.le32 0x100 ++
  Codec.le32 248 ++ replicate 16 0 ++
  replicate 12 0 ++ Codec.le32 0x1040 ++ Codec.le32 1 ++ Codec.le32 2 ++ Codec.le32 2 ++ Codec.le32 0x1028 ++
  Codec.le32 0x1030 ++ Codec.le32 0x1038 ++
  Codec.le32 0x9000 ++ Codec.le32 0x9000 ++ Codec.le32 0x103c ++ Codec.le32 0x103e ++ [first, 0, second, 0] ++
  [0x61, 0, 0x62, 0] ++ [0x6d, 0]

def sampleDirectory : Directory where
  sections := [⟨".rdata", 0x1000, 0x100, 248, 0x100⟩]
  rva := 0x1000
  size := 0x40
  moduleName := "m"
  base := 1
  functionCount := 2
  nameCount := 2
  functionsOff := 288
  namesOff := some 296
  ordinalsOff := some 304

theorem exports_forwarded_sample :
    parseExports (sampleDll 0 1) = .ok ⟨"m", 1, [⟨some "a", 1, false⟩, ⟨some "b", 2, false⟩]⟩ ∧
    Forwards (generate ⟨"m", 1, [⟨some "a", 1, false⟩, ⟨some "b", 2, false⟩]⟩ "x" "y") "y" (some "a") 1 ∧
    ∃ slot name, sampleDirectory.Entry (sampleDll 0 1) 296 304 1 slot name := by
  have parsed : parseExports (sampleDll 0 1) = .ok ⟨"m", 1, [⟨some "a", 1, false⟩, ⟨some "b", 2, false⟩]⟩ := by
    decide +kernel
  have directory : readDirectory (sampleDll 0 1) = .ok sampleDirectory := by decide +kernel
  have ⟨forwards, entries, _⟩ := exports_forwarded "x" "y" parsed directory rfl rfl
  exact ⟨parsed, forwards _ mem_cons_self, entries 1 (by decide)⟩

theorem alias_left_out :
    parseExports (sampleDll 0 0) = .ok ⟨"m", 1, [⟨some "b", 1, false⟩, ⟨none, 2, false⟩]⟩ ∧
    readDirectory (sampleDll 0 0) = .ok sampleDirectory ∧
    sampleDirectory.Entry (sampleDll 0 0) 296 304 0 0 "a" ∧ sampleDirectory.used (sampleDll 0 0) 0 ∧
    ¬ Forwards (generate ⟨"m", 1, [⟨some "b", 1, false⟩, ⟨none, 2, false⟩]⟩ "x" "y") "y" (some "a") 1 := by
  refine ⟨by decide +kernel, by decide +kernel, ⟨by decide +kernel, by decide +kernel⟩,
    by decide +kernel, ?_⟩
  intro forwards
  have other : ¬ (definition "y" (some "a") 1).toList <:+:
      (generate ⟨"m", 1, [⟨some "b", 1, false⟩, ⟨none, 2, false⟩]⟩ "x" "y").definitions.toList := by decide +kernel
  exact other forwards.defined

end Tpf3Mp.Hook
