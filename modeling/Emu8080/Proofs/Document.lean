/-
# Emu8080.Proofs.Document -- what a configuration document gives

Reading a document is a chain of checks.  A judgement about a check says what it
lets through and what it refuses with (`Yields`), and the judgement about the
whole chain is put together from those about its links (`parse_yields`): either
the document is refused for what stands in it, or a part of it does not have the
shape that it is asked for in, or it gives a configuration.

A document should only ever be refused for what stands in it.  One whose
integers can be written is, or gives a configuration of the declared kinds, if
its parts have their shapes; and it takes these shapes, for they are not checked.
-/
import Emu8080.Config.Parse
import Emu8080.Proofs.Showable
import Emu8080.Proofs.Spelling
import Mathlib.Data.List.Forall2

namespace Emu8080

set_option autoImplicit false

/-! ## Checks -/

/-- What the check lets through has `Q`, and what it refuses with has `E`. -/
def Yields {α : Type} (x : Except Fault α) (Q : α → Prop) (E : Fault → Prop) : Prop :=
  match x with
  | .ok a => Q a
  | .error fault => E fault

namespace Yields

variable {α β : Type} {x : Except Fault α} {P Q : α → Prop} {E E' : Fault → Prop}

theorem mono (h : Yields x P E) (hP : ∀ a, P a → Q a) (hE : ∀ fault, E fault → E' fault) :
    Yields x Q E' := by
  cases x with
  | ok a => exact hP a h
  | error fault => exact hE fault h

theorem weaken (h : Yields x P E) (hE : ∀ fault, E fault → E' fault) : Yields x P E' :=
  h.mono (fun _ ha => ha) hE

theorem bind {f : α → Except Fault β} {R : β → Prop} (hx : Yields x P E)
    (hf : ∀ a, P a → Yields (f a) R E) : Yields (x >>= f) R E := by
  cases x with
  | ok a => exact hf a hx
  | error fault => exact hx

/-- Checks made in turn pair each value with what it gives. -/
theorem mapM {f : β → Except Fault α} {R : β → α → Prop} {xs : List β}
    (h : ∀ x ∈ xs, Yields (f x) (R x) E) : Yields (xs.mapM f) (List.Forall₂ R xs) E := by
  induction xs with
  | nil => exact .nil
  | cons x rest ih =>
    rw [List.mapM_cons]
    refine (h x List.mem_cons_self).bind fun a ha => ?_
    refine (ih fun y hy => h y (List.mem_cons_of_mem x hy)).bind fun as has => ?_
    exact .cons ha has

theorem of_ok {a : α} (h : Yields x Q E) (hx : x = .ok a) : Q a := by
  rwa [hx] at h

theorem of_error {fault : Fault} (h : Yields x Q E) (hx : x = .error fault) : E fault := by
  rwa [hx] at h

end Yields

/-- What stands in the first of two lists that are related in order has a partner in the second. -/
theorem exists_partner {α β : Type} {R : β → α → Prop} {xs : List β} {ys : List α}
    (h : List.Forall₂ R xs ys) : ∀ x ∈ xs, ∃ y ∈ ys, R x y := by
  induction h with
  | nil => exact fun x hx => absurd hx List.not_mem_nil
  | cons hxy _ ih =>
    intro x hx
    rcases List.mem_cons.1 hx with rfl | hx
    · exact ⟨_, List.mem_cons_self, hxy⟩
    · obtain ⟨y, hy, hR⟩ := ih x hx
      exact ⟨y, List.mem_cons_of_mem _ hy, hR⟩

/-! ## Integers -/

namespace SystemConfig

open Text (hexInt?)

/-- A hexadecimal numeral that begins with its mark has no sign. -/
theorem nonneg_of_isMarked {n : Int} {chars : List Char} (hmark : isMarked chars = true)
    (h : hexInt? chars = some n) : 0 ≤ n := by
  unfold isMarked at hmark
  split at hmark
  · next m rest =>
    rw [hexInt?, Text.trimBy_cons (by decide)] at h
    obtain ⟨k, -, rfl⟩ := Option.map_eq_some_iff.1 h
    exact Int.natCast_nonneg k
  · exact absurd hmark Bool.false_ne_true

/-- An integer below one that a text stands for can be written. -/
theorem isShowable_of_integerOfText? {s : Text} {n : Int} (h : integerOfText? s = some n)
    (hn : n ≤ 0) : (Datum.int n).isShowable = true := by
  obtain ⟨chars, -, hchars⟩ := Option.bind_eq_some_iff.1 h
  split at hchars
  · next hmark =>
    have hzero : n = 0 := Int.le_antisymm hn (nonneg_of_isMarked hmark hchars)
    subst hzero
    exact Datum.isShowable_of_lt (Text.lt_decimalBound (by decide))
  · exact Datum.isShowable_of_lt (Text.natAbs_of_decimalInt? hchars)

/-! ## One check -/

/-- The faults that are about what stands in a value: one about the configuration, or, if the
value holds an integer too long to be written, that it cannot be shown. -/
def Refuses (d : Datum) (fault : Fault) : Prop :=
  (∃ cause, fault = .config cause) ∨ fault = .longInteger ∧ d.isShowable = false

theorem refuses_showing (d : Datum) (cause : ConfigFault) :
    Refuses d (.showing d (.config cause)) := by
  rw [Fault.showing]
  cases hd : d.isShowable with
  | true => exact .inl ⟨cause, rfl⟩
  | false => exact .inr ⟨rfl, hd⟩

theorem Refuses.mono {d d' : Datum} (h : d'.isShowable = true → d.isShowable = true)
    (fault : Fault) (hfault : Refuses d fault) : Refuses d' fault := by
  rcases hfault with hconfig | ⟨hlong, hd⟩
  · exact .inl hconfig
  · refine .inr ⟨hlong, Bool.eq_false_iff.2 fun hd' => ?_⟩
    rw [h hd'] at hd
    exact nomatch hd

/-- A document that can be written has entries that can be written. -/
theorem isShowable_entry {entries : Entries} (name : String) {default : Datum}
    (hdefault : default.isShowable = true) (h : (Datum.map entries).isShowable = true) :
    (entry entries name default).isShowable = true := by
  rw [entry]
  cases hd : Datum.lookup? (.str name) entries with
  | none => exact hdefault
  | some d =>
    obtain ⟨k, hk⟩ := Datum.mem_of_lookup? hd
    exact (Datum.entriesShowable_of_mem h _ hk).2

theorem integer_yields (d : Datum) :
    Yields (integer d)
      (fun n => n ≤ 0 → d.isShowable = true → (Datum.int n).isShowable = true) (Refuses d) := by
  cases d with
  | int n => exact fun _ h => h
  | str s =>
    rw [integer]
    cases hs : integerOfText? s with
    | some n => exact fun hn _ => isShowable_of_integerOfText? hs hn
    | none => exact refuses_showing _ _
  | null | bool b | float x | list items | map entries => exact refuses_showing _ _

theorem architecture_yields (entries : Entries) :
    Yields (parseArchitecture entries) (· = "8080") (Refuses (.map entries)) := by
  rw [parseArchitecture]
  split
  · next h =>
    have hmem := List.mem_of_find?_eq_some h
    exact List.mem_singleton.1 hmem
  · exact Refuses.mono (isShowable_entry _ rfl) _ (refuses_showing _ _)

theorem choice_yields {α : Type} (entries : Entries) (key default : String) (all : List α)
    (name : α → String) :
    Yields (parseChoice entries key default all name) (· ∈ all) (Refuses (.map entries)) := by
  rw [parseChoice]
  split
  · next h => exact List.mem_of_find?_eq_some h
  · exact Refuses.mono (isShowable_entry _ rfl) _ (refuses_showing _ _)

theorem maxSteps_yields (entries : Entries) :
    Yields (parseMaxSteps entries) (fun bound => ∀ n, bound = some n → 0 < n)
      (Refuses (.map entries)) := by
  rw [parseMaxSteps]
  have hpart (h : (Datum.map entries).isShowable = true) :
      (entry entries "max_steps" .null).isShowable = true := isShowable_entry _ rfl h
  generalize entry entries "max_steps" .null = d at hpart
  have hbound : Yields (do return some (← positive (← integer d)))
      (fun bound : Option Int => ∀ n, bound = some n → 0 < n) (Refuses d) := by
    refine (integer_yields d).bind fun n hn => ?_
    rw [positive]
    split
    · next hle =>
      exact Refuses.mono (hn hle) _ (refuses_showing _ _)
    · next hpos =>
      rintro k hk
      cases hk
      omega
  split
  · rintro n hn
    exact nomatch hn
  · exact hbound.weaken (Refuses.mono hpart)

/-! ## The parts of a document -/

/-- A value that gives an image: a mapping with the path of the image. -/
def GivesImage (d : Datum) (image : ProgramImage) : Prop :=
  ∃ entries, d = .map entries ∧ Datum.lookup? (.str "path") entries = some image.path

theorem entriesOf_yields (d : Datum) :
    Yields (entriesOf d) (fun entries => d = .map entries)
      fun fault => fault = .noAttribute ∧ ∀ entries, d ≠ .map entries := by
  cases d with
  | map entries => exact rfl
  | null | bool b | int n | float x | str s | list items => exact ⟨rfl, fun entries => nofun⟩

theorem image_yields (d : Datum) :
    Yields (parseImage d) (GivesImage d)
      fun fault => Refuses d fault ∨ fault = .noAttribute ∧ ∀ entries, d ≠ .map entries := by
  rw [parseImage]
  refine ((entriesOf_yields d).weaken fun _ h => .inr h).bind ?_
  rintro entries rfl
  have haddress (h : (Datum.map entries).isShowable = true) :
      (entry entries "address" (.int 0)).isShowable = true :=
    isShowable_entry _ (Datum.isShowable_of_lt (Text.lt_decimalBound (by decide))) h
  dsimp only
  split
  · exact .inl (Refuses.mono (isShowable_entry _ rfl) _ (refuses_showing _ _))
  · split
    · exact .inl (.inl ⟨_, rfl⟩)
    · next path hpath =>
      refine ((integer_yields _).weaken fun fault h => .inl (Refuses.mono haddress fault h)).bind
        fun address _ => ?_
      exact ⟨entries, rfl, hpath⟩

/-- The faults of asking a part for what it does not have: elements of what holds none, or entries
of what is no mapping. -/
inductive Stray (entries : Entries) : Fault → Prop
  | programs (hprograms : (entry entries "programs" (.list [])).elements? = none) :
      Stray entries .wrongKind
  | image {items : List Datum} {item : Datum}
      (hprograms : (entry entries "programs" (.list [])).elements? = some items)
      (hitem : item ∈ items) (hentries : ∀ image, item ≠ .map image) : Stray entries .noAttribute
  | start (hentries : ∀ part, entry entries "initial_state" (.map []) ≠ .map part) :
      Stray entries .noAttribute
  | registers {part : Entries} (hstart : entry entries "initial_state" (.map []) = .map part)
      (hentries : ∀ registers, entry part "registers" (.map []) ≠ .map registers) :
      Stray entries .noAttribute

theorem elements_yields (d : Datum) :
    Yields d.elements (fun items => d.elements? = some items)
      fun fault => fault = .wrongKind ∧ d.elements? = none := by
  rw [Datum.elements]
  cases h : d.elements? with
  | some items => exact rfl
  | none => exact ⟨rfl, rfl⟩

theorem programs_yields (entries : Entries) :
    Yields (parsePrograms entries)
      (fun images => ∃ items, (entry entries "programs" (.list [])).elements? = some items
        ∧ List.Forall₂ GivesImage items images)
      fun fault => Refuses (.map entries) fault ∨ Stray entries fault := by
  have hpart (h : (Datum.map entries).isShowable = true) :
      (entry entries "programs" (.list [])).isShowable = true := isShowable_entry _ rfl h
  rw [parsePrograms]
  refine ((elements_yields _).weaken ?_).bind fun items hitems => ?_
  · rintro fault ⟨rfl, hnone⟩
    exact .inr (.programs hnone)
  have himage : ∀ item ∈ items, Yields (parseImage item) (GivesImage item)
      fun fault => Refuses (.map entries) fault ∨ Stray entries fault := by
    intro item hitem
    refine (image_yields item).weaken ?_
    rintro fault (hrefuses | ⟨rfl, hentries⟩)
    · exact .inl (Refuses.mono
        (fun h => Datum.isShowable_of_elements? (hpart h) hitems item hitem) fault hrefuses)
    · exact .inr (.image hitems hitem hentries)
  exact (Yields.mapM himage).mono (fun images h => ⟨items, hitems, h⟩) fun _ h => h

/-! ## Registers -/

theorem mem_setRegister {r q : Reg} {value : Int} {read : List (Reg × Int)}
    (h : q ∈ (setRegister r value read).map Prod.fst) : q = r ∨ q ∈ read.map Prod.fst := by
  induction read with
  | nil => exact .inl (List.mem_singleton.1 h)
  | cons first rest ih =>
    rw [setRegister] at h
    split at h
    · next hfirst =>
      rw [List.map_cons, ← hfirst] at h
      exact .inr h
    · rw [List.map_cons] at h ⊢
      rcases List.mem_cons.1 h with rfl | hrest
      · exact .inr List.mem_cons_self
      · exact (ih hrest).imp_right (List.mem_cons_of_mem _)

theorem nodup_setRegister {r : Reg} {value : Int} {read : List (Reg × Int)}
    (h : (read.map Prod.fst).Nodup) : ((setRegister r value read).map Prod.fst).Nodup := by
  induction read with
  | nil => exact List.nodup_cons.2 ⟨List.not_mem_nil, List.nodup_nil⟩
  | cons first rest ih =>
    obtain ⟨hfirst, hrest⟩ := List.nodup_cons.1 h
    rw [setRegister]
    split
    · next hr =>
      subst hr
      exact h
    · next hne =>
      refine List.nodup_cons.2 ⟨fun hmem => ?_, ih hrest⟩
      rcases mem_setRegister hmem with hr | hmem
      · exact hne hr
      · exact hfirst hmem

/-- Registers are read each once, a later value taking the place of an earlier one. -/
theorem registers_yields (given : Entries) (read : List (Reg × Int))
    (hread : (read.map Prod.fst).Nodup) :
    Yields (parseRegisters read given) (fun registers => (registers.map Prod.fst).Nodup)
      (Refuses (.map given)) := by
  induction given generalizing read with
  | nil => exact hread
  | cons first rest ih =>
    obtain ⟨key, d⟩ := first
    have hparts (h : (Datum.map ((key, d) :: rest)).isShowable = true) :
        (key.isShowable = true ∧ d.isShowable = true) ∧ (Datum.map rest).isShowable = true := by
      rw [Datum.isShowable, Datum.entriesShowable, Bool.and_eq_true, Bool.and_eq_true] at h
      exact h
    rw [parseRegisters]
    split
    · exact Refuses.mono (fun h => (hparts h).1.1) _ (refuses_showing _ _)
    · refine ((integer_yields d).weaken (Refuses.mono fun h => (hparts h).1.2)).bind
        fun value _ => ?_
      exact (ih _ (nodup_setRegister hread)).weaken (Refuses.mono fun h => (hparts h).2)

/-! ## Documents -/

/-- The part of a document on the starting state, and the part of that on the registers, are
mappings. -/
def StartShaped (entries : Entries) : Prop :=
  ∃ part registers, entry entries "initial_state" (.map []) = .map part
    ∧ entry part "registers" (.map []) = .map registers

theorem start_yields (entries : Entries) :
    Yields (parseInitialState entries)
      (fun state => StartShaped entries ∧ (state.registers.map Prod.fst).Nodup)
      fun fault => Refuses (.map entries) fault ∨ Stray entries fault := by
  have hstart (h : (Datum.map entries).isShowable = true) :
      (entry entries "initial_state" (.map [])).isShowable = true := isShowable_entry _ rfl h
  rw [parseInitialState]
  refine ((entriesOf_yields _).weaken ?_).bind fun part hpart => ?_
  · rintro fault ⟨rfl, hentries⟩
    exact .inr (.start hentries)
  rw [hpart] at hstart
  refine ((entriesOf_yields _).weaken ?_).bind fun given hgiven => ?_
  · rintro fault ⟨rfl, hentries⟩
    exact .inr (.registers hpart hentries)
  have hwritten {name : String} {default : Datum} (hdefault : default.isShowable = true)
      (fault : Fault) (h : Refuses (entry part name default) fault) :
      Refuses (.map entries) fault ∨ Stray entries fault :=
    .inl (Refuses.mono (fun h => isShowable_entry _ hdefault (hstart h)) fault h)
  have hzero := Datum.isShowable_of_lt (n := 0) (Text.lt_decimalBound (by decide))
  refine ((registers_yields given [] List.nodup_nil).weaken ?_).bind fun registers hnodup => ?_
  · rw [← hgiven]
    exact hwritten rfl
  refine ((integer_yields _).weaken (hwritten hzero)).bind fun pc _ => ?_
  refine ((integer_yields _).weaken (hwritten hzero)).bind fun sp _ => ?_
  have hgives (flags : Option Int) : Yields
      (pure { pc, sp, registers, flags,
              interrupts := (entry part "int_enable" (.bool false)).truthy })
      (fun state : InitialState => StartShaped entries ∧ (state.registers.map Prod.fst).Nodup)
      (fun fault => Refuses (.map entries) fault ∨ Stray entries fault) :=
    ⟨⟨part, given, hpart, hgiven⟩, hnodup⟩
  have hflags : ∀ fault, Refuses (entry part "flags" .null) fault →
      Refuses (.map entries) fault ∨ Stray entries fault := hwritten rfl
  generalize entry part "flags" .null = d at hflags
  dsimp only
  split
  · exact hgives none
  · exact ((integer_yields d).weaken hflags).bind fun flags _ => hgives (some flags)

/-- A configuration that a document can give: every value checked, every part of the document of the
shape that it is asked for in. -/
structure Accepts (entries : Entries) (c : SystemConfig) : Prop where
  architecture : c.architecture = "8080"
  maxSteps : ∀ n, c.maxSteps = some n → 0 < n
  programs : ∃ items, (entry entries "programs" (.list [])).elements? = some items
    ∧ List.Forall₂ GivesImage items c.programs
  start : StartShaped entries
  registers : (c.initialState.registers.map Prod.fst).Nodup

/-- Reading a document gives a configuration, or refuses the document for what stands in it or for
the shape of one of its parts. -/
theorem parse_yields (entries : Entries) :
    Yields (parse (.map entries)) (Accepts entries)
      fun fault => Refuses (.map entries) fault ∨ Stray entries fault := by
  have hleft : ∀ fault, Refuses (.map entries) fault →
      Refuses (.map entries) fault ∨ Stray entries fault := fun _ => .inl
  rw [parse]
  refine ((architecture_yields entries).weaken hleft).bind fun architecture harchitecture => ?_
  refine ((choice_yields entries _ _ _ _).weaken hleft).bind fun flagPolicy _ => ?_
  refine ((choice_yields entries _ _ _ _).weaken hleft).bind fun trapPolicy _ => ?_
  refine ((maxSteps_yields entries).weaken hleft).bind fun maxSteps hmaxSteps => ?_
  refine (programs_yields entries).bind fun programs hprograms => ?_
  refine (start_yields entries).bind fun initialState hstart => ?_
  exact ⟨harchitecture, hmaxSteps, hprograms, hstart.1, hstart.2⟩

/-- Every field of a description holds a value of the kind that the field is declared for. -/
structure Declared (b : Blueprint) : Prop where
  architecture : b.architecture = .str "8080"
  flagPolicy : b.flagPolicy = .str "preserve" ∨ b.flagPolicy = .str "clear"
  trapPolicy : b.trapPolicy = .str "halt" ∨ b.trapPolicy = .str "skip" ∨ b.trapPolicy = .str "raise"
  maxSteps : b.maxSteps = .null ∨ ∃ n, 0 < n ∧ b.maxSteps = .int n
  path : ∀ image ∈ b.programs, ∃ s, image.path = .str s
  address : ∀ image ∈ b.programs, ∃ n, image.address = .int n
  format : ∀ image ∈ b.programs, image.format = .str "binary" ∨ image.format = .str "ihex"
  pc : ∃ n, b.start.pc = .int n
  sp : ∃ n, b.start.sp = .int n
  registers : ∃ values : List (Reg × Int), (values.map Prod.fst).Nodup
    ∧ b.start.registers = .map (values.map fun e => (.str e.1.name, .int e.2))
  flags : b.start.flags = .null ∨ ∃ n, b.start.flags = .int n
  intEnable : b.start.intEnable = .int 0 ∨ b.start.intEnable = .int 1

/-- Of an accepted configuration only the paths can be of another kind. -/
theorem declared_iff {entries : Entries} {c : SystemConfig} (h : Accepts entries c) :
    Declared c.toBlueprint ↔ ∀ image ∈ c.programs, ∃ s, image.path = .str s := by
  have hprograms {P : ImageSpec → Prop} :
      (∀ image ∈ c.toBlueprint.programs, P image) ↔ ∀ image ∈ c.programs, P image.toSpec :=
    List.forall_mem_map
  constructor
  · intro hdeclared
    exact hprograms.1 hdeclared.path
  · intro hpaths
    refine ⟨?_, ?_, ?_, ?_, hprograms.2 hpaths, hprograms.2 fun image _ => ⟨image.address, rfl⟩,
      hprograms.2 fun image _ => ?_, ⟨_, rfl⟩, ⟨_, rfl⟩, ⟨_, h.registers, rfl⟩, ?_, ?_⟩
    · exact congrArg (fun name : String => Datum.str name) h.architecture
    · cases hpolicy : c.flagPolicy <;> simp [SystemConfig.toBlueprint, hpolicy, FlagPolicy.name]
    · cases hpolicy : c.trapPolicy <;> simp [SystemConfig.toBlueprint, hpolicy, TrapPolicy.name]
    · cases hbound : c.maxSteps with
      | none => exact .inl (congrArg Datum.ofInt? hbound)
      | some n => exact .inr ⟨n, h.maxSteps n hbound, congrArg Datum.ofInt? hbound⟩
    · cases hformat : image.format with
      | binary => exact .inl (congrArg (fun f : ImageFormat => Datum.str f.name) hformat)
      | ihex => exact .inr (congrArg (fun f : ImageFormat => Datum.str f.name) hformat)
    · cases hflags : c.initialState.flags with
      | none => exact .inl (congrArg Datum.ofInt? hflags)
      | some n => exact .inr ⟨n, congrArg Datum.ofInt? hflags⟩
    · cases hinterrupts : c.initialState.interrupts with
      | false => exact .inl (congrArg (fun b : Bool => Datum.int (if b then 1 else 0)) hinterrupts)
      | true => exact .inr (congrArg (fun b : Bool => Datum.int (if b then 1 else 0)) hinterrupts)

/-- The document is refused with a fault about the configuration, or gives a description of declared
kinds. -/
def Answered (d : Datum) : Prop :=
  (∃ cause, parse d = .error (.config cause)) ∨ ∃ c, parse d = .ok c ∧ Declared c.toBlueprint

/-- The parts of a document have the shapes that they are asked for in: the images are mappings,
with texts for paths where they have paths, and so are the starting state and its registers. -/
structure Shaped (entries : Entries) : Prop where
  programs : ∃ items, (entry entries "programs" (.list [])).elements? = some items
    ∧ ∀ item ∈ items, ∃ image, item = .map image
      ∧ ∀ path, Datum.lookup? (.str "path") image = some path → ∃ s, path = .str s
  start : StartShaped entries

theorem not_stray_of_shaped {entries : Entries} {fault : Fault} (h : Shaped entries) :
    ¬Stray entries fault := by
  obtain ⟨items, hitems, himages⟩ := h.programs
  obtain ⟨part, registers, hpart, hregisters⟩ := h.start
  intro hstray
  cases hstray with
  | programs hnone =>
    rw [hitems] at hnone
    exact nomatch hnone
  | image hsome hitem hentries =>
    rw [hitems] at hsome
    cases hsome
    obtain ⟨image, himage, -⟩ := himages _ hitem
    exact hentries image himage
  | start hentries => exact hentries part hpart
  | registers hstart hentries =>
    rw [hpart] at hstart
    cases hstart
    exact hentries registers hregisters

theorem shaped_of_declared {entries : Entries} {c : SystemConfig} (h : Accepts entries c)
    (hdeclared : Declared c.toBlueprint) : Shaped entries := by
  obtain ⟨items, hitems, hgives⟩ := h.programs
  refine ⟨⟨items, hitems, fun item hitem => ?_⟩, h.start⟩
  obtain ⟨image, himage, given, rfl, hpath⟩ := exists_partner hgives item hitem
  refine ⟨given, rfl, fun path hgiven => ?_⟩
  obtain ⟨s, hs⟩ := (declared_iff h).1 hdeclared image himage
  rw [hpath] at hgiven
  exact ⟨s, (Option.some.inj hgiven).symm.trans hs⟩

theorem declared_of_shaped {entries : Entries} {c : SystemConfig} (h : Accepts entries c)
    (hshaped : Shaped entries) : Declared c.toBlueprint := by
  obtain ⟨items, hitems, hgives⟩ := h.programs
  obtain ⟨items', hitems', himages⟩ := hshaped.programs
  rw [hitems] at hitems'
  cases hitems'
  refine (declared_iff h).2 fun image himage => ?_
  obtain ⟨item, hitem, given, rfl, hpath⟩ := exists_partner hgives.flip image himage
  obtain ⟨given', heq, hpaths⟩ := himages _ hitem
  cases heq
  exact hpaths image.path hpath

/-- A document whose integers can be written and whose parts have their shapes is answered. -/
theorem answered_of_shaped {entries : Entries} (hwritable : (Datum.map entries).isShowable = true)
    (hshaped : Shaped entries) : Answered (.map entries) := by
  cases hparse : parse (.map entries) with
  | ok c => exact .inr ⟨c, hparse, declared_of_shaped ((parse_yields entries).of_ok hparse) hshaped⟩
  | error fault =>
    rcases (parse_yields entries).of_error hparse with (⟨cause, rfl⟩ | ⟨-, hlong⟩) | hstray
    · exact .inl ⟨cause, hparse⟩
    · rw [hwritable] at hlong
      exact nomatch hlong
    · exact absurd hstray (not_stray_of_shaped hshaped)

/-- **What documents are answered with.**  A document whose integers can be written is refused with
a fault about the configuration or gives a configuration of declared kinds exactly if it is refused
for what stands in it or its parts have their shapes.  The shapes are not checked: a part without
its shape makes a fault of another family, and a path of any kind is let through.  Whether there is
room to go through a document that nests very deeply depends on the caller, and is left out of
account. -/
theorem answered_iff {d : Datum} (hwritable : d.isShowable = true) :
    Answered d ↔ (∃ entries, d = .map entries ∧ Shaped entries)
      ∨ ∃ cause, parse d = .error (.config cause) := by
  constructor
  · rintro (hrefused | ⟨c, hc, hdeclared⟩)
    · exact .inr hrefused
    · cases d with
      | map entries =>
        exact .inl ⟨entries, rfl, shaped_of_declared ((parse_yields entries).of_ok hc) hdeclared⟩
      | null | bool b | int n | float x | str s | list items => exact nomatch hc
  · rintro (⟨entries, rfl, hshaped⟩ | hrefused)
    · exact answered_of_shaped hwritable hshaped
    · exact .inl hrefused

/-- An image without an address and a register over its width. -/
theorem answered_image_and_register :
    Answered (.map [(.str "programs", .list [.map [(.str "path", .str "a.bin")]]),
      (.str "initial_state", .map [(.str "registers", .map [(.str "A", .int 300)])])]) := by
  refine (answered_iff (by decide +kernel)).2 (.inl ⟨_, rfl, ?_, ?_⟩)
  · refine ⟨_, rfl, fun item hitem => ?_⟩
    cases List.mem_singleton.1 hitem
    refine ⟨_, rfl, fun path hpath => ⟨"a.bin", ?_⟩⟩
    exact (Option.some.inj hpath).symm
  · exact ⟨_, _, rfl, rfl⟩

/-- A starting state that is given as nothing does not count as one that is not given. -/
theorem not_answered_null_start :
    parse (.map [(.str "initial_state", .null)]) = .error .noAttribute
      ∧ ¬Answered (.map [(.str "initial_state", .null)]) := by
  have hparse : parse (.map [(.str "initial_state", .null)]) = .error .noAttribute := by rfl
  refine ⟨hparse, ?_⟩
  rintro (⟨cause, hrefused⟩ | ⟨c, hc, -⟩)
  · rw [hparse] at hrefused
    exact nomatch hrefused
  · rw [hparse] at hc
    exact nomatch hc

end SystemConfig
end Emu8080
