/-
# Emu8080.Proofs.Rendering -- configurations written as documents

One configuration can be written in many documents: integers as numbers or as
digits in two bases, names in any case, registers in any order, defaults left
out, and other entries in between.  What may stand for a value is said once for
each kind of value (`WritesInt`, `WritesName`, `WritesOption`), what may stand
under a name by `HasEntry`, and a document that writes a configuration is one
whose entries write its parts (`Renders`).

Reading undoes writing: an entry that may be left out reads as what is written
for its default (`HasEntry.writes`), so each part is read on its own, and the
parts make up the configuration (`parse_renders`).
-/
import Emu8080.Proofs.Document
import Emu8080.Proofs.Numeral

namespace Emu8080

set_option autoImplicit false

/-- A character whose small letter is in ASCII is in ASCII itself. -/
theorem Text.toNat_lt_of_toLower {c : Char} (h : c.toLower.toNat < 0x80) : c.toNat < 0x80 := by
  delta Char.toLower at h
  split at h
  next hupper =>
    have hle : c.toNat ≤ 90 := hupper.2
    omega
  next => exact h

namespace SystemConfig

open Emu8080.Action (checks_eq_ok_iff)

/-! ## Values -/

/-- An integer is written as a number, in decimal digits if they are not too many to be read, or,
if it is not negative, in hexadecimal digits behind their mark. -/
inductive WritesInt : Int → Datum → Prop
  | number (n : Int) : WritesInt n (.int n)
  | decimal {n : Int} (h : n.natAbs < Text.decimalBound) : WritesInt n (.str (Text.decimalInt n))
  | hexadecimal {n : Nat} {m : Char} {digits : List Char} (hm : m = 'x' ∨ m = 'X')
      (h : Text.WritesHex n digits) : WritesInt n (.str (Text.ofList ('0' :: m :: digits)))

/-- An integer that may be absent is written as nothing where it is. -/
inductive WritesOption : Option Int → Datum → Prop
  | none : WritesOption none .null
  | some {n : Int} {d : Datum} (h : WritesInt n d) : WritesOption (some n) d

/-- A name is written in letters of any case. -/
def WritesName (name : String) (d : Datum) : Prop :=
  ∃ chars, d = .str (Text.ofList chars) ∧ chars.map Char.toLower = name.toList

/-- A truth value is written as itself or as 0 or 1. -/
def WritesBool (b : Bool) (d : Datum) : Prop := d = .bool b ∨ d = .int (if b then 1 else 0)

section Values

variable {n : Int} {d : Datum}

/-- Decimal text has no mark, since no digit is one. -/
theorem isMarked_decimalInt (n : Int) : isMarked (Text.decimalInt n).toList = false := by
  rw [Text.toList_decimalInt]
  split
  next => rfl
  next =>
    unfold isMarked
    split
    next m rest hdigits =>
      have hm : m ∈ Nat.toDigits 10 n.natAbs := by
        rw [hdigits]
        exact List.mem_cons_of_mem _ List.mem_cons_self
      obtain ⟨d, hd⟩ := Text.digit_of_mem_decimal hm
      have hsmall : m ≠ 'x' := by
        rintro rfl
        exact hd.not_mark (by decide)
      have hlarge : m ≠ 'X' := by
        rintro rfl
        exact hd.not_mark (by decide)
      rw [decide_eq_false hsmall, decide_eq_false hlarge, Bool.or_false]
    next => rfl

theorem integer_of_writes (h : WritesInt n d) : integer d = .ok n := by
  cases h with
  | number => rfl
  | decimal h =>
    have hread : integerOfText? (Text.decimalInt n) = some n := by
      rw [integerOfText?, Text.ofString, Text.chars?_ofList, Option.bind_some, isMarked_decimalInt]
      exact Text.decimalInt?_decimalInt h
    rw [integer, hread]
  | @hexadecimal n m digits hm h =>
    have hread : integerOfText? (Text.ofList ('0' :: m :: digits)) = some (n : Int) := by
      have hmark : isMarked ('0' :: m :: digits) = true := by
        rcases hm with rfl | rfl <;> rfl
      rw [integerOfText?, Text.chars?_ofList, Option.bind_some, hmark]
      exact Text.hexInt?_marked_writes h hm
    rw [integer, hread]

/-- A table of names that are found in any case: they consist of small letters, and each names its
own alternative. -/
structure Named {α : Type} (all : List α) (name : α → String) : Prop where
  ascii (a : α) : ((name a).toList.all fun c => c.toNat < 0x80) = true
  small (a : α) : (name a).toList.map Char.toLower = (name a).toList
  chosen (a : α) : choose all name (name a) = some a

theorem named_flagPolicy : Named FlagPolicy.all FlagPolicy.name where
  ascii a := by cases a <;> rfl
  small a := by cases a <;> rfl
  chosen a := by cases a <;> rfl

theorem named_trapPolicy : Named TrapPolicy.all TrapPolicy.name where
  ascii a := by cases a <;> rfl
  small a := by cases a <;> rfl
  chosen a := by cases a <;> rfl

theorem named_reg : Named Reg.all Reg.name where
  ascii r := by cases r <;> rfl
  small r := by cases r <;> rfl
  chosen r := by cases r <;> rfl

theorem Named.writesName {α : Type} {all : List α} {name : α → String} (h : Named all name)
    (a : α) : WritesName (name a) (.str (name a)) := ⟨(name a).toList, rfl, h.small a⟩

/-- What writes a name is read as the alternative of that name. -/
theorem Named.choose_lowercase {α : Type} {all : List α} {name : α → String} (h : Named all name)
    {a : α} (hd : WritesName (name a) d) : choose all name (Text.lowercase d.text) = some a := by
  obtain ⟨chars, rfl, hchars⟩ := hd
  have hascii : ∀ c ∈ chars, c.toNat < 0x80 := by
    intro c hc
    have hsmall : c.toLower ∈ (name a).toList := by
      rw [← hchars]
      exact List.mem_map_of_mem hc
    exact Text.toNat_lt_of_toLower (of_decide_eq_true (List.all_eq_true.1 (h.ascii a) _ hsmall))
  have hlowered : Text.lowercase (Text.ofList chars) = name a := by
    rw [Text.lowercase_ofList chars hascii, hchars]
    rfl
  show choose all name (Text.lowercase (Text.ofList chars)) = some a
  rw [hlowered]
  exact h.chosen a

theorem truthy_of_writes {b : Bool} (h : WritesBool b d) : d.truthy = b := by
  rcases h with rfl | rfl
  · rfl
  · cases b <;> rfl

end Values

/-! ## Entries -/

/-- What stands under a name writes something, or nothing stands there and it is the default. -/
inductive HasEntry (entries : Entries) (name : String) (writes : Datum → Prop) (isDefault : Prop) :
    Prop
  | given {d : Datum} (hd : Datum.lookup? (.str name) entries = some d) (h : writes d)
  | omitted (hd : Datum.lookup? (.str name) entries = none) (h : isDefault)

/-- An entry reads as something that is written for it, whether it is there or left out. -/
theorem HasEntry.writes {entries : Entries} {name : String} {writes : Datum → Prop}
    {isDefault : Prop} (h : HasEntry entries name writes isDefault) {default : Datum}
    (hdefault : isDefault → writes default) : writes (entry entries name default) := by
  rw [entry]
  cases h with
  | given hd h =>
    rw [hd]
    exact h
  | omitted hd h =>
    rw [hd]
    exact hdefault h

/-- An image is written as a mapping with its path.  Its format is written as it is. -/
def WritesImage (image : ProgramImage) (d : Datum) : Prop :=
  ∃ entries, d = .map entries
    ∧ Datum.lookup? (.str "path") entries = some image.path
    ∧ HasEntry entries "address" (WritesInt image.address) (image.address = 0)
    ∧ HasEntry entries "format" (· = .str image.format.name) (image.format = .binary)

/-- Registers are written as a mapping from their names, in this order. -/
def WritesRegisters (registers : List (Reg × Int)) (d : Datum) : Prop :=
  ∃ entries, d = .map entries
    ∧ List.Forall₂ (fun e (r : Reg × Int) => WritesName r.1.name e.1 ∧ WritesInt r.2 e.2)
        entries registers

/-- A starting state is written as a mapping, with its registers in any order. -/
structure WritesStart (i : InitialState) (part : Entries) : Prop where
  pc : HasEntry part "pc" (WritesInt i.pc) (i.pc = 0)
  sp : HasEntry part "sp" (WritesInt i.sp) (i.sp = 0)
  registers : HasEntry part "registers"
    (fun d => ∃ listed, listed.Perm i.registers ∧ WritesRegisters listed d) (i.registers = [])
  flags : HasEntry part "flags" (WritesOption i.flags) (i.flags = none)
  intEnable : HasEntry part "int_enable" (WritesBool i.interrupts) (i.interrupts = false)

/-- The entries write the configuration.  Entries under other names may stand between them. -/
structure Renders (c : SystemConfig) (entries : Entries) : Prop where
  architecture : HasEntry entries "architecture" (fun d => d = .str "8080" ∨ d = .int 8080) True
  flagPolicy : HasEntry entries "flag_policy" (WritesName c.flagPolicy.name)
    (c.flagPolicy = .preserve)
  trapPolicy : HasEntry entries "trap_policy" (WritesName c.trapPolicy.name) (c.trapPolicy = .halt)
  maxSteps : HasEntry entries "max_steps" (WritesOption c.maxSteps) (c.maxSteps = none)
  programs : HasEntry entries "programs"
    (fun d => ∃ items, d = .list items ∧ List.Forall₂ (fun d image => WritesImage image d) items
      c.programs) (c.programs = [])
  initialState : HasEntry entries "initial_state"
    (fun d => ∃ part, d = .map part ∧ WritesStart c.initialState part) (c.initialState = {})

/-! ## Reading what is written -/

section Reading

variable {entries : Entries} {c : SystemConfig}

theorem parseArchitecture_of_renders
    (h : HasEntry entries "architecture" (fun d => d = .str "8080" ∨ d = .int 8080) True) :
    parseArchitecture entries = .ok "8080" := by
  rw [parseArchitecture]
  rcases h.writes (fun _ => .inl rfl) with hd | hd
  · rw [hd]
    rfl
  · rw [hd]
    rfl

/-- A name is read in any case, and where it is left out as the default one. -/
theorem parseChoice_of_hasEntry {α : Type} {all : List α} {name : α → String}
    (hnames : Named all name) {key : String} {a default : α}
    (h : HasEntry entries key (WritesName (name a)) (a = default)) :
    parseChoice entries key (name default) all name = .ok a := by
  have hwritten : WritesName (name a) (entry entries key (.str (name default))) :=
    h.writes fun h => by
      rw [h]
      exact hnames.writesName default
  rw [parseChoice, hnames.choose_lowercase hwritten]

/-- An integer is read however it is written, and where it is left out as zero. -/
theorem integer_of_hasEntry {name : String} {n : Int}
    (h : HasEntry entries name (WritesInt n) (n = 0)) :
    integer (entry entries name (.int 0)) = .ok n :=
  integer_of_writes (h.writes fun h => by
    rw [h]
    exact .number 0)

theorem parseMaxSteps_of_writes {bound : Option Int} (hbound : ∀ n, bound = some n → 0 < n)
    (h : WritesOption bound (entry entries "max_steps" .null)) :
    parseMaxSteps entries = .ok bound := by
  rw [parseMaxSteps]
  generalize entry entries "max_steps" .null = d at h
  cases h with
  | none => rfl
  | @some n d h =>
    have hread := integer_of_writes h
    have hpositive : positive n = .ok n := positive_eq_ok_iff.2 ⟨rfl, hbound n rfl⟩
    split
    next => cases h
    next =>
      rw [hread]
      show (positive n >>= _) = _
      rw [hpositive]
      rfl

theorem parseImage_of_writes {image : ProgramImage} {d : Datum} (h : WritesImage image d) :
    parseImage d = .ok image := by
  obtain ⟨entries, rfl, hpath, haddress, hformat⟩ := h
  have hread := integer_of_hasEntry haddress
  have hname : entry entries "format" (.str "binary") = .str image.format.name :=
    hformat.writes fun h => by
      rw [h]
      rfl
  rw [parseImage]
  refine checks_eq_ok_iff.2 ⟨entries, rfl, ?_⟩
  dsimp only
  rw [hname, ImageFormat.ofDatum?_name]
  dsimp only
  rw [hpath]
  exact checks_eq_ok_iff.2 ⟨image.address, hread, rfl⟩

/-- Checks that accept each of a list accept the list. -/
theorem mapM_of_forall₂ {α β : Type} {f : β → Except Fault α} {R : β → α → Prop} {xs : List β}
    {ys : List α} (hR : ∀ x y, R x y → f x = .ok y) (h : List.Forall₂ R xs ys) :
    xs.mapM f = .ok ys := by
  induction h with
  | nil => rfl
  | cons hxy _ ih =>
    rw [List.mapM_cons, hR _ _ hxy, ih]
    rfl

theorem parsePrograms_of_writes {images : List ProgramImage} {items : List Datum}
    (hitems : entry entries "programs" (.list []) = .list items)
    (h : List.Forall₂ (fun d image => WritesImage image d) items images) :
    parsePrograms entries = .ok images := by
  rw [parsePrograms, hitems]
  exact mapM_of_forall₂ (fun _ _ => parseImage_of_writes) h

/-! ## Registers -/

theorem setRegister_of_not_mem {r : Reg} {read : List (Reg × Int)} (h : r ∉ read.map Prod.fst)
    (value : Int) : setRegister r value read = read ++ [(r, value)] := by
  induction read with
  | nil => rfl
  | cons first rest ih =>
    rw [List.map_cons, List.mem_cons, not_or] at h
    rw [setRegister, if_neg (Ne.symm h.1), ih h.2]
    rfl

/-- Registers that are written each once are read in the order in which they are written. -/
theorem parseRegisters_of_writes {given : Entries} {read registers : List (Reg × Int)}
    (h : List.Forall₂ (fun e (r : Reg × Int) => WritesName r.1.name e.1 ∧ WritesInt r.2 e.2) given
      registers) (hnodup : ((read ++ registers).map Prod.fst).Nodup) :
    parseRegisters read given = .ok (read ++ registers) := by
  induction h generalizing read with
  | nil => rw [parseRegisters, List.append_nil]
  | @cons e r given registers hr _ ih =>
    have hnew : r.1 ∉ read.map Prod.fst := by
      rw [List.map_append] at hnodup
      exact fun hmem => (List.nodup_append.1 hnodup).2.2 _ hmem _ List.mem_cons_self rfl
    rw [parseRegisters, named_reg.choose_lowercase hr.1]
    dsimp only
    rw [integer_of_writes hr.2]
    show parseRegisters (setRegister r.1 r.2 read) given = _
    rw [List.append_cons] at hnodup ⊢
    rw [setRegister_of_not_mem hnew]
    exact ih hnodup

theorem parseInitialState_of_writes {i : InitialState} {part : Entries}
    (hpart : entry entries "initial_state" (.map []) = .map part) (h : WritesStart i part)
    (hnodup : (i.registers.map Prod.fst).Nodup) :
    ∃ registers, registers.Perm i.registers
      ∧ parseInitialState entries = .ok { i with registers } := by
  have hpc := integer_of_hasEntry h.pc
  have hsp := integer_of_hasEntry h.sp
  have hflags : WritesOption i.flags (entry part "flags" .null) := h.flags.writes fun h => by
    rw [h]
    exact .none
  have henable : (entry part "int_enable" (.bool false)).truthy = i.interrupts :=
    truthy_of_writes (h.intEnable.writes fun h => .inl (by rw [h]))
  have hregisters : ∃ listed, listed.Perm i.registers
      ∧ WritesRegisters listed (entry part "registers" (.map [])) := h.registers.writes fun h =>
    ⟨[], by rw [h], [], rfl, .nil⟩
  obtain ⟨listed, hperm, given, hgiven, hlisted⟩ := hregisters
  have hread : parseRegisters [] given = .ok listed :=
    parseRegisters_of_writes hlisted ((hperm.map Prod.fst).nodup_iff.2 hnodup)
  refine ⟨listed, hperm, ?_⟩
  rw [parseInitialState, hpart]
  refine checks_eq_ok_iff.2 ⟨part, rfl, checks_eq_ok_iff.2 ⟨given, by rw [hgiven]; rfl, ?_⟩⟩
  refine checks_eq_ok_iff.2 ⟨listed, hread, checks_eq_ok_iff.2 ⟨i.pc, hpc, ?_⟩⟩
  refine checks_eq_ok_iff.2 ⟨i.sp, hsp, ?_⟩
  rw [henable]
  generalize entry part "flags" .null = d at hflags
  generalize i.flags = flags at hflags
  cases hflags with
  | none => rfl
  | @some n d h =>
    have hread := integer_of_writes h
    dsimp only
    split
    next => cases h
    next =>
      rw [hread]
      rfl

end Reading

/-! ## Writing and reading -/

/-- A configuration that can be written: of the one architecture there is, with a positive bound and
each register once. -/
structure WellFormed (c : SystemConfig) : Prop where
  architecture : c.architecture = "8080"
  maxSteps : ∀ n, c.maxSteps = some n → 1 ≤ n
  registers : (c.initialState.registers.map Prod.fst).Nodup

/-- An image in plain writing: every entry is there, and integers are numbers. -/
def plainImage (image : ProgramImage) : Datum :=
  .map [(.str "path", image.path), (.str "address", .int image.address),
    (.str "format", .str image.format.name)]

/-- A starting state in plain writing. -/
def plainStart (i : InitialState) : Entries :=
  [(.str "pc", .int i.pc), (.str "sp", .int i.sp), (.str "registers", i.toSpec.registers),
    (.str "flags", Datum.ofInt? i.flags), (.str "int_enable", .bool i.interrupts)]

/-- A configuration in plain writing. -/
def plain (c : SystemConfig) : Entries :=
  [(.str "architecture", .str "8080"), (.str "flag_policy", .str c.flagPolicy.name),
    (.str "trap_policy", .str c.trapPolicy.name), (.str "max_steps", Datum.ofInt? c.maxSteps),
    (.str "programs", .list (c.programs.map plainImage)),
    (.str "initial_state", .map (plainStart c.initialState))]

theorem writesOption_ofInt? (bound : Option Int) : WritesOption bound (Datum.ofInt? bound) := by
  cases bound with
  | none => exact .none
  | some n => exact .some (.number n)

theorem writesImage_plain (image : ProgramImage) : WritesImage image (plainImage image) :=
  ⟨_, rfl, rfl, .given rfl (.number _), .given rfl rfl⟩

theorem writesRegisters_plain (registers : List (Reg × Int)) :
    WritesRegisters registers (.map (registers.map fun e => (.str e.1.name, .int e.2))) := by
  refine ⟨_, rfl, ?_⟩
  induction registers with
  | nil => exact .nil
  | cons e rest ih =>
    exact .cons ⟨named_reg.writesName e.1, .number e.2⟩ ih

theorem writesStart_plain (i : InitialState) : WritesStart i (plainStart i) where
  pc := .given rfl (.number _)
  sp := .given rfl (.number _)
  registers := .given rfl ⟨i.registers, .refl _, writesRegisters_plain i.registers⟩
  flags := .given rfl (writesOption_ofInt? i.flags)
  intEnable := .given rfl (.inl rfl)

/-- Everything may be left out where all of it is default. -/
theorem writesStart_empty : WritesStart {} [] where
  pc := .omitted rfl rfl
  sp := .omitted rfl rfl
  registers := .omitted rfl rfl
  flags := .omitted rfl rfl
  intEnable := .omitted rfl rfl

theorem renders_plain (c : SystemConfig) : Renders c (plain c) where
  architecture := .given rfl (.inl rfl)
  flagPolicy := .given rfl (named_flagPolicy.writesName c.flagPolicy)
  trapPolicy := .given rfl (named_trapPolicy.writesName c.trapPolicy)
  maxSteps := .given rfl (writesOption_ofInt? c.maxSteps)
  programs := .given rfl ⟨_, rfl, by
    induction c.programs with
    | nil => exact .nil
    | cons image rest ih => exact .cons (writesImage_plain image) ih⟩
  initialState := .given rfl ⟨_, rfl, writesStart_plain c.initialState⟩

/-- **What is written is read back.**  A well-formed configuration can be written as a document, and
however it is written, integers in either base, names in any case, registers in any order, defaults
left out and other entries in between, reading the document gives that configuration, up to the
order of its registers. -/
theorem parse_renders {c : SystemConfig} (hc : c.WellFormed) :
    (∃ entries, Renders c entries)
      ∧ ∀ entries, Renders c entries →
        ∃ registers, registers.Perm c.initialState.registers
          ∧ parse (.map entries)
            = .ok { c with initialState := { c.initialState with registers } } := by
  refine ⟨⟨plain c, renders_plain c⟩, fun entries h => ?_⟩
  have hflag := parseChoice_of_hasEntry named_flagPolicy h.flagPolicy
  have htrap := parseChoice_of_hasEntry named_trapPolicy h.trapPolicy
  have hbound : parseMaxSteps entries = .ok c.maxSteps :=
    parseMaxSteps_of_writes hc.maxSteps (h.maxSteps.writes fun h => by rw [h]; exact .none)
  have hprograms : ∃ items, entry entries "programs" (.list []) = .list items
      ∧ List.Forall₂ (fun d image => WritesImage image d) items c.programs :=
    h.programs.writes fun h => ⟨[], rfl, by rw [h]; exact .nil⟩
  have hstart : ∃ part, entry entries "initial_state" (.map []) = .map part
      ∧ WritesStart c.initialState part := by
    refine h.initialState.writes fun h => ⟨[], rfl, ?_⟩
    rw [h]
    exact writesStart_empty
  obtain ⟨items, hitems, himages⟩ := hprograms
  obtain ⟨part, hpart, hwritten⟩ := hstart
  obtain ⟨registers, hperm, hread⟩ := parseInitialState_of_writes hpart hwritten hc.registers
  refine ⟨registers, hperm, ?_⟩
  rw [parse, parseArchitecture_of_renders h.architecture, ← hc.architecture]
  refine checks_eq_ok_iff.2 ⟨_, rfl, checks_eq_ok_iff.2 ⟨_, hflag, checks_eq_ok_iff.2 ⟨_, htrap, ?_⟩⟩⟩
  refine checks_eq_ok_iff.2 ⟨_, hbound, checks_eq_ok_iff.2 ⟨_, ?_, checks_eq_ok_iff.2 ⟨_, hread, rfl⟩⟩⟩
  exact parsePrograms_of_writes hitems himages

/-- A document in mixed writing: the two registers are not in order, and two entries are not asked
for. -/
def mixed : Entries :=
  [(.str "name", .str "demo"), (.str "architecture", .int 8080), (.str "flag_policy", .str "Clear"),
    (.str "max_steps", .str "0X00fF"),
    (.str "programs", .list [.map [(.str "path", .str "a.bin"), (.str "address", .str "-1")]]),
    (.str "initial_state", .map [(.str "registers", .map [(.str "L", .str "0xA"),
      (.str "a", .int 300)]), (.int 1, .null), (.str "int_enable", .int 1)])]

theorem parse_renders_mixed :
    ∃ registers, registers.Perm [(.a, 300), (.l, 10)]
      ∧ parse (.map mixed) = .ok
        { architecture := "8080", flagPolicy := .clear, trapPolicy := .halt, maxSteps := some 255
          programs := [⟨.str "a.bin", -1, .binary⟩]
          initialState := { registers, interrupts := true } } := by
  let c : SystemConfig :=
    { architecture := "8080", flagPolicy := .clear, trapPolicy := .halt, maxSteps := some 255
      programs := [⟨.str "a.bin", -1, .binary⟩]
      initialState := { registers := [(.a, 300), (.l, 10)], interrupts := true } }
  have hc : c.WellFormed :=
    { architecture := rfl
      maxSteps := fun n hn => by
        cases hn
        decide
      registers := by decide }
  have hdigits : Text.WritesHex 255 ['f', 'F'] :=
    @Text.WritesHex.snoc 15 15 ['f'] 'F' (.digit (by decide +kernel)) (by decide +kernel)
  have hten : Text.WritesHex 10 ['A'] := .digit (by decide +kernel)
  have hminus : WritesInt (-1) (.str "-1") := .decimal (n := -1) (by decide +kernel)
  have himage : WritesImage ⟨.str "a.bin", -1, .binary⟩
      (.map [(.str "path", .str "a.bin"), (.str "address", .str "-1")]) :=
    ⟨_, rfl, rfl, .given rfl hminus, .omitted rfl rfl⟩
  have hrenders : Renders c mixed :=
    { architecture := .given rfl (.inr rfl)
      flagPolicy := .given rfl ⟨"Clear".toList, rfl, by decide⟩
      trapPolicy := .omitted rfl rfl
      maxSteps := .given rfl (.some (.hexadecimal (.inr rfl) hdigits.zero.zero))
      programs := .given rfl ⟨_, rfl, .cons himage .nil⟩
      initialState := .given rfl ⟨_, rfl,
        { pc := .omitted rfl rfl
          sp := .omitted rfl rfl
          registers := .given rfl ⟨[(.l, 10), (.a, 300)], .swap _ _ _, _, rfl,
            .cons ⟨⟨['L'], rfl, by decide⟩, .hexadecimal (.inl rfl) hten⟩
              (.cons ⟨⟨['a'], rfl, by decide⟩, .number 300⟩ .nil)⟩
          flags := .omitted rfl rfl
          intEnable := .given rfl (.inr rfl) }⟩ }
  exact (parse_renders hc).2 mixed hrenders

end SystemConfig

end Emu8080
