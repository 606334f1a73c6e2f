/-
# Emu8080.Proofs.Coverage -- which image an address gets its byte from

An image is placed in runs of bytes: a raw one in a single run from its address
on, a hexadecimal one in a run for each data record that is carried out.  No run
is longer than the space, so a run has at most one byte for an address
(`Run.byte?`), and among runs that are placed in turn the last that covers an
address decides (`lookup_places`).

Where a hexadecimal image puts its runs depends on its text alone
(`loadLines_eq`), and what a processor starts from does not depend on the
memory (`Blueprint.outset`).  So images can be told apart by the addresses they
cover: the last one decides, and images that share no address may be placed in
any order.
-/
import Emu8080.Proofs.Build
import Emu8080.Proofs.HexGrammar
import Emu8080.Proofs.Loading
import Emu8080.Proofs.Numeral

namespace Emu8080

set_option autoImplicit false

open Emu8080.Action (bind_of_ok bind_of_error modify_bind get_bind demand_bind)

/-! ## Runs of bytes -/

/-- Bytes that follow one another from an integer on, around the ring. -/
structure Run where
  start : Int
  bytes : List UInt8
deriving DecidableEq, Repr

namespace Run

/-- The places of a run. -/
def places (r : Run) : List Memory.Place := Memory.spread r.start r.bytes

/-- The run is not longer than the space. -/
def Fits (r : Run) : Prop := r.bytes.length ≤ UInt16.size

/-- The byte of a run for an address: the one as far behind its start as the address. -/
def byte? (r : Run) (a : UInt16) : Option UInt8 :=
  r.bytes[((a.toNat - r.start) % 65536).toNat]?

variable {r : Run} {a : UInt16} {v : UInt8}

/-- How far behind an integer an address is. -/
theorem place_eq_iff {start : Int} {i : Nat} (hi : i < UInt16.size) :
    UInt16.ofInt (start + i) = a ↔ ((a.toNat - start) % 65536).toNat = i := by
  have ha := a.toNat_lt
  rw [UInt16.size] at hi
  rw [ofInt_eq_iff]
  omega

/-- A run covers an address with the one byte whose place it is. -/
theorem byte?_eq_some_iff (hr : r.Fits) :
    r.byte? a = some v
      ↔ ∃! i : Nat, r.bytes[i]? = some v ∧ UInt16.ofInt (r.start + i) = a := by
  have hbound {i : Nat} (hi : r.bytes[i]? = some v) : i < UInt16.size :=
    Nat.lt_of_lt_of_le (List.getElem?_eq_some_iff.1 hi).1 hr
  constructor
  · intro h
    refine ⟨_, ⟨h, (place_eq_iff (hbound h)).2 rfl⟩, ?_⟩
    rintro j ⟨hj, hplace⟩
    exact ((place_eq_iff (hbound hj)).1 hplace).symm
  · rintro ⟨i, ⟨hi, hplace⟩, -⟩
    rw [byte?, (place_eq_iff (hbound hi)).1 hplace]
    exact hi

/-- The last place of a run that names an address has the byte of the run for it. -/
theorem lookup_spread (start : Int) {bytes : List UInt8} (h : bytes.length ≤ UInt16.size)
    (a : UInt16) : (Memory.spread start bytes).reverse.lookup a = (Run.mk start bytes).byte? a := by
  induction bytes generalizing start with
  | nil => rfl
  | cons v rest ih =>
    have hrest : rest.length < UInt16.size := h
    have hnext := ih (start + 1) (Nat.le_of_lt hrest)
    rw [Memory.spread_cons, List.reverse_cons, List.lookup_append, hnext, byte?, byte?,
      List.lookup_cons, List.lookup_nil]
    dsimp only
    have hstart : UInt16.ofInt start = a ↔ ((a.toNat - start) % 65536).toNat = 0 := by
      have hplace : UInt16.ofInt (start + (0 : Nat)) = a
          ↔ ((a.toNat - start) % 65536).toNat = 0 := place_eq_iff (by decide)
      rwa [Int.natCast_zero, Int.add_zero] at hplace
    by_cases ha : UInt16.ofInt start = a
    · -- the next byte for this address would be a whole turn behind the start
      have hfar : ((a.toNat - (start + 1)) % 65536).toNat = 65535 := by
        have := hstart.1 ha
        omega
      have hnone : rest[65535]? = none :=
        List.getElem?_eq_none (Nat.le_of_lt_succ hrest)
      rw [hfar, hnone, hstart.1 ha, ha, beq_self_eq_true]
      rfl
    · have hback : ((a.toNat - start) % 65536).toNat
          = ((a.toNat - (start + 1)) % 65536).toNat + 1 := by
        have := mt hstart.2 ha
        omega
      rw [hback, List.getElem?_cons_succ, beq_false_of_ne (Ne.symm ha)]
      exact Option.or_none

end Run

/-- What the last item that has something gives. -/
def lastOf? {α β : Type} (f : α → Option β) (items : List α) : Option β :=
  items.reverse.findSome? f

section LastOf

variable {α β γ : Type} {f : α → Option β} {x : α} {items more : List α} {b : β}

theorem lastOf?_cons (f : α → Option β) (x : α) (items : List α) :
    lastOf? f (x :: items) = (lastOf? f items).or (f x) := by
  rw [lastOf?, List.reverse_cons, List.findSome?_append, List.findSome?_singleton]
  rfl

theorem lastOf?_append (f : α → Option β) (items more : List α) :
    lastOf? f (items ++ more) = (lastOf? f more).or (lastOf? f items) := by
  rw [lastOf?, List.reverse_append, List.findSome?_append]
  rfl

theorem lastOf?_flatMap (f : β → Option γ) (g : α → List β) (items : List α) :
    lastOf? f (items.flatMap g) = lastOf? (fun x => lastOf? f (g x)) items := by
  induction items with
  | nil => rfl
  | cons x rest ih => rw [List.flatMap_cons, lastOf?_append, lastOf?_cons, ih]

/-- Where no two items have something, any that has is the last. -/
theorem lastOf?_eq_some_iff (h : items.Pairwise fun x y => f x = none ∨ f y = none) :
    lastOf? f items = some b ↔ ∃ x ∈ items, f x = some b := by
  induction items with
  | nil => exact ⟨nofun, fun ⟨_, hx, _⟩ => absurd hx List.not_mem_nil⟩
  | cons x rest ih =>
    obtain ⟨hx, hrest⟩ := List.pairwise_cons.1 h
    rw [lastOf?_cons, Option.or_eq_some_iff, ih hrest, List.exists_mem_cons_iff]
    constructor
    · rintro (hlater | ⟨-, hb⟩)
      · exact .inr hlater
      · exact .inl hb
    · rintro (hb | hlater)
      · have hnone : lastOf? f rest = none := by
          rw [lastOf?, List.findSome?_eq_none_iff]
          intro y hy
          refine (hx y (List.mem_reverse.1 hy)).resolve_left fun hnone => ?_
          exact nomatch hnone.symm.trans hb
        exact .inr ⟨hnone, hb⟩
      · exact .inl hlater

end LastOf

namespace Run

/-- Among runs that are placed in turn, the last that covers an address decides. -/
theorem lookup_places {runs : List Run} (h : ∀ r ∈ runs, r.Fits) (a : UInt16) :
    (runs.flatMap places).reverse.lookup a = lastOf? (·.byte? a) runs := by
  induction runs with
  | nil => rfl
  | cons r rest ih =>
    rw [List.flatMap_cons, List.reverse_append, List.lookup_append, lastOf?_cons,
      ih fun q hq => h q (List.mem_cons_of_mem r hq)]
    exact congrArg _ (lookup_spread r.start (h r List.mem_cons_self) a)

end Run

/-! ## The runs of a hexadecimal image -/

/-- The data of an accepted record is counted by one byte. -/
theorem Record.length_lt_of_parse {text : List Char} {address : Int} {bytes : List UInt8}
    (h : parse text = .ok (.data address bytes)) : bytes.length < 256 := by
  obtain ⟨-, f, hfields, hf⟩ := ofFields_of_parse h
  obtain ⟨hcount, -⟩ := Fields.sound_of_ofFields hf
  have hbytes : f.bytes = bytes := by
    rw [ofFields] at hf
    split_ifs at hf
    all_goals cases hf
    rfl
  have hlength : f.length.natAbs < 256 := by
    rw [fields] at hfields
    obtain ⟨length, hread, hrest⟩ := reads_eq_ok hfields
    obtain ⟨_, -, hrest⟩ := reads_eq_ok hrest
    obtain ⟨_, -, hrest⟩ := reads_eq_ok hrest
    obtain ⟨_, -, hrest⟩ := reads_eq_ok hrest
    obtain ⟨_, -, hrest⟩ := reads_eq_ok hrest
    cases hrest
    rw [field] at hread
    split at hread
    next n hint =>
      cases hread
      have hshort : ((text.drop 1).take 2).length ≤ 2 := List.length_take_le _ _
      exact Nat.lt_of_lt_of_le (Text.natAbs_of_hexInt? hint)
        (Nat.pow_le_pow_right (by decide) hshort)
    next => cases hread
  rw [hbytes] at hcount
  omega

namespace Image

/-- The run that a record asks for, if it has data; its address counts from the base. -/
def runsOf (base : Nat) : Record → List Run
  | .data address bytes => [⟨base + address, bytes⟩]
  | _ => []

/-- The runs of the records on lines that are carried out from a base on. -/
def runsFrom (base : Nat) : List (List Char) → List Run
  | [] => []
  | line :: rest =>
      match asks line with
      | none => runsFrom base rest
      | some (.error _) => []
      | some (.ok r) => if r = .endOfFile then [] else runsOf base r ++ runsFrom (baseAfter base r) rest

/-- The runs of a hexadecimal image, by its octets. -/
def hexRuns (bytes : List UInt8) : List Run := runsFrom 0 (Text.decodeUtf8 bytes).lines

theorem placesOf_eq (base : Nat) (r : Record) :
    placesOf base r = (runsOf base r).flatMap Run.places := by
  cases r with
  | data address bytes => exact (List.append_nil _).symm
  | endOfFile | segmentBase | linearBase | startAddress => rfl

theorem runsFrom_fits (base : Nat) (lines : List (List Char)) :
    ∀ r ∈ runsFrom base lines, r.Fits := by
  induction lines generalizing base with
  | nil => exact fun r hr => absurd hr List.not_mem_nil
  | cons line rest ih =>
    rw [runsFrom]
    split
    next => exact ih base
    next => exact fun r hr => absurd hr List.not_mem_nil
    next record hasks =>
      split
      next => exact fun r hr => absurd hr List.not_mem_nil
      next =>
        intro r hr
        rcases List.mem_append.1 hr with hfirst | hlater
        · cases record with
          | data address bytes =>
            cases List.mem_singleton.1 hfirst
            obtain ⟨text, -, hparse⟩ := Option.map_eq_some_iff.1 hasks
            exact Nat.le_of_lt ((Record.length_lt_of_parse hparse).trans (by decide))
          | endOfFile | segmentBase | linearBase | startAddress =>
            exact absurd hfirst List.not_mem_nil
        · exact ih _ r hlater

/-- What comes of lines, and where they put bytes, does not depend on the memory. -/
theorem loadLines_eq (damaged : Bool) (number base total : Nat) (lines : List (List Char)) :
    ∃ outcome, ∀ m, loadLines damaged number base total lines m
      = Action.demand outcome (m.storeEach ((runsFrom base lines).flatMap Run.places)) := by
  induction lines generalizing number base total with
  | nil =>
    cases damaged with
    | true => exact ⟨.error .badEncoding, fun m => rfl⟩
    | false => exact ⟨.ok total, fun m => rfl⟩
  | cons line rest ih =>
    rw [runsFrom]
    cases hasks : asks line with
    | none =>
      obtain ⟨outcome, hrest⟩ := ih (number + 1) base total
      exact ⟨outcome, fun m => (loadLines_passed hasks rest).trans (hrest m)⟩
    | some asked =>
      cases asked with
      | error cause => exact ⟨.error (.record number cause), fun m => loadLines_refused hasks rest⟩
      | ok r =>
        dsimp only
        split
        next hr =>
          subst hr
          exact ⟨.ok total, fun m => loadLines_ends hasks rest⟩
        next hr =>
          obtain ⟨outcome, hrest⟩ :=
            ih (number + 1) (baseAfter base r) (total + (placesOf base r).length)
          refine ⟨outcome, fun m => ?_⟩
          rw [loadLines_record hasks hr, hrest, List.flatMap_append, Memory.storeEach_append,
            placesOf_eq]

/-- An image that loads into one memory loads into every memory, and puts the same runs there. -/
theorem loadHex_eq_runs {bytes : List UInt8} {count : Nat} {m₁ m₂ : Memory}
    (h : loadHex bytes m₁ = .ok count m₂) (m : Memory) :
    loadHex bytes m = .ok count (m.storeEach ((hexRuns bytes).flatMap Run.places)) := by
  obtain ⟨outcome, houtcome⟩ := loadLines_eq (Text.decodeUtf8 bytes).damaged 1 0 0
    (Text.decodeUtf8 bytes).lines
  have hcount := (Action.demand_eq_ok ((houtcome m₁).symm.trans h)).1
  rw [hcount] at houtcome
  exact houtcome m

end Image

/-! ## The runs of an image -/

namespace ProgramImage

variable {files : Files} {image : ProgramImage} {images : List ProgramImage}

/-- The runs of an image, from what its file holds. -/
def runs (files : Files) (image : ProgramImage) : List Run :=
  match files.read image.path, image.format with
  | .ok (_, bytes), .binary => [⟨image.address, bytes⟩]
  | .ok (_, bytes), .ihex => Image.hexRuns bytes
  | .error _, _ => []

/-- The byte that an image has for an address: that of its last run that covers it. -/
def byte? (files : Files) (a : UInt16) (image : ProgramImage) : Option UInt8 :=
  lastOf? (·.byte? a) (image.runs files)

/-- Two images cover no address both. -/
def Apart (files : Files) (i j : ProgramImage) : Prop :=
  ∀ a, i.byte? files a = none ∨ j.byte? files a = none

/-- An image that can be placed: a raw one that is not longer than the space, or a hexadecimal
one that loads. -/
inductive Loadable (files : Files) : ProgramImage → Prop
  | binary {path : Datum} {address : Int} {name : Text} {bytes : List UInt8}
      (hread : files.read path = .ok (name, bytes)) (hsize : bytes.length ≤ UInt16.size) :
      Loadable files ⟨path, address, .binary⟩
  | ihex {path : Datum} {address : Int} {name : Text} {bytes : List UInt8}
      (hread : files.read path = .ok (name, bytes)) {count : Nat} {m₁ m₂ : Memory}
      (hload : Image.loadHex bytes m₁ = .ok count m₂) : Loadable files ⟨path, address, .ihex⟩

theorem Loadable.fits (h : image.Loadable files) : ∀ r ∈ image.runs files, r.Fits := by
  cases h with
  | binary hread hsize =>
    intro r hr
    rw [runs, hread] at hr
    cases List.mem_singleton.1 hr
    exact hsize
  | ihex hread hload =>
    rw [runs, hread]
    exact Image.runsFrom_fits 0 _

end ProgramImage

/-- A raw image that is not longer than the space is placed in one run. -/
theorem Image.loadBinary_eq {path : Text} {bytes : List UInt8} (h : bytes.length ≤ UInt16.size)
    (address : Int) (m : Memory) :
    loadBinary path bytes (.int address) m
      = .ok bytes.length (m.storeEach (Run.mk address bytes).places) := by
  rw [loadBinary, if_neg (Nat.not_lt.2 h)]
  show Memory.load (.int address) _ m = _
  rw [Memory.load_of_some rfl, leadingBytes_bytes]
  rfl

/-- A longer one is refused before a byte of it is placed. -/
theorem Image.loadBinary_oversize {path : Text} {bytes : List UInt8}
    (h : UInt16.size < bytes.length) (address : Datum) (m : Memory) :
    loadBinary path bytes address m = .error (.imageSize path bytes.length) m := by
  rw [loadBinary, if_pos h]
  rfl

namespace Blueprint

open ProgramImage (Loadable Apart)

variable {b : Blueprint} {files : Files} {images : List ProgramImage} {m m' : Memory}

/-! ## Placing images -/

/-- An image that can be placed is placed in its runs, whatever the memory holds. -/
theorem loadImage_eq {image : ProgramImage} (h : image.Loadable files) :
    ∃ name bytes count, files.read image.path = .ok (name, bytes)
      ∧ ∀ m, loadImage image name bytes m
          = .ok count (m.storeEach ((image.runs files).flatMap Run.places)) := by
  cases h with
  | @binary path address name bytes hread hsize =>
    refine ⟨name, bytes, bytes.length, hread, fun m => ?_⟩
    rw [ProgramImage.runs, hread, List.flatMap_singleton]
    exact Image.loadBinary_eq hsize address m
  | @ihex path address name bytes hread count m₁ m₂ hload =>
    refine ⟨name, bytes, count, hread, fun m => ?_⟩
    rw [ProgramImage.runs, hread]
    exact Image.loadHex_eq_runs hload m

theorem loads_eq (h : ∀ image ∈ images, image.Loadable files) (m : Memory) :
    Loads files images m
      (m.storeEach ((images.flatMap (ProgramImage.runs files)).flatMap Run.places)) := by
  induction images generalizing m with
  | nil => exact .nil m
  | cons image rest ih =>
    obtain ⟨name, bytes, count, hread, hload⟩ := loadImage_eq (h image List.mem_cons_self)
    rw [List.flatMap_cons, List.flatMap_append, Memory.storeEach_append]
    exact .cons hread (hload m) (ih (fun i hi => h i (List.mem_cons_of_mem image hi)) _)

/-- What images leave at an address: the byte of the last one that covers it, or the old byte. -/
theorem byteAt_images (h : ∀ image ∈ images, image.Loadable files) (m : Memory) (a : UInt16) :
    (m.storeEach ((images.flatMap (ProgramImage.runs files)).flatMap Run.places)).byteAt a
      = (lastOf? (·.byte? files a) images).getD (m.byteAt a) := by
  have hfits : ∀ r ∈ images.flatMap (ProgramImage.runs files), r.Fits := by
    intro r hr
    obtain ⟨image, himage, hr⟩ := List.mem_flatMap.1 hr
    exact (h image himage).fits r hr
  rw [Memory.byteAt_storeEach, Run.lookup_places hfits, lastOf?_flatMap]
  rfl

/-- A raw image that is longer than the space is refused, and the memory stays as it was. -/
theorem placeImage_oversize {image : ProgramImage} {name : Text} {bytes : List UInt8}
    (hformat : image.format = .binary) (hread : files.read image.path = .ok (name, bytes))
    (hsize : UInt16.size < bytes.length) (m : Memory) :
    placeImage files image.toSpec m = .error (.imageSize name bytes.length) m := by
  have hspec : files.read image.toSpec.path = .ok (name, bytes) := hread
  have hraw : ¬image.toSpec.format.agrees (.str ImageFormat.ihex.name) = true := by
    rw [ProgramImage.toSpec, hformat]
    exact Bool.false_ne_true
  rw [placeImage, demand_bind hspec]
  dsimp only
  rw [if_neg hraw]
  exact bind_of_error (Image.loadBinary_oversize hsize _ m) _

/-- The image behind images that were placed is refused, and so are all of them. -/
theorem placeImages_append_of_error {specs rest : List ImageSpec} {spec : ImageSpec}
    {notices : List Notice} {fault : Fault} (hplaced : placeImages files specs m = .ok notices m')
    (hrefused : placeImage files spec m' = .error fault m') :
    placeImages files (specs ++ spec :: rest) m = .error fault m' := by
  induction specs generalizing m notices with
  | nil =>
    cases hplaced
    rw [List.nil_append, placeImages]
    exact bind_of_error hrefused _
  | cons first specs ih =>
    obtain ⟨_, m₁, hfirst, hothers⟩ := Action.bind_eq_ok hplaced
    obtain ⟨_, m₂, hspecs, hdone⟩ := Action.bind_eq_ok hothers
    cases hdone
    rw [List.cons_append, placeImages, bind_of_ok hfirst]
    exact bind_of_error (ih hspecs) _

/-! ## Building with images -/

/-- The same system with other images. -/
def withImages (b : Blueprint) (images : List ProgramImage) : Blueprint :=
  { b with programs := images.map ProgramImage.toSpec }

/-- The policy and the state that a processor starts with. -/
def outset (b : Blueprint) : Except Fault (FlagPolicy × CpuState) := do
  let policy ← FlagPolicy.ofDatum b.flagPolicy
  match startState b.start {} with
  | .ok _ s => return (policy, s)
  | .error fault _ => throw fault

/-- The system with the images turns one memory into another.  Whether the processor can start,
and with what, comes from the rest of the description. -/
def Places (b : Blueprint) (files : Files) (images : List ProgramImage) (m m' : Memory) : Prop :=
  ∃ notices, (b.withImages images).buildCpu files m
    = Action.demand (b.outset.map fun (policy, s) => (⟨⟨s, m'⟩, policy, 0⟩, notices)) m'

/-- A processor that starts afresh has the state of the description over its own memory. -/
theorem startCpu_ofMemory (spec : StartSpec) (m : Memory) (policy : FlagPolicy) :
    startCpu spec (Cpu.ofMemory m policy) = match startState spec {} with
      | .ok _ s => .ok () ⟨⟨s, m⟩, policy, 0⟩
      | .error fault s => .error fault ⟨⟨s, m⟩, policy, 0⟩ := by
  cases h : startState spec {} with
  | ok _ s =>
    have hstate : Machine.onState (startState spec) { memory := m } = .ok () ⟨s, m⟩ :=
      Action.within_of_ok h
    rw [startCpu, modify_bind]
    exact Cpu.onMachine_of_ok hstate
  | error fault s =>
    have hstate : Machine.onState (startState spec) { memory := m } = .error fault ⟨s, m⟩ :=
      Action.within_of_error h
    rw [startCpu, modify_bind]
    exact Cpu.onMachine_of_error hstate

theorem places_of_loads (b : Blueprint) (h : Loads files images m m') :
    b.Places files images m m' := by
  obtain ⟨notices, hplaced⟩ := placeImages_eq h
  have hnotices : placeImages files (b.withImages images).programs m = .ok notices m' := hplaced
  refine ⟨notices, ?_⟩
  rw [buildCpu, bind_of_ok hnotices, outset]
  show (Action.demand (FlagPolicy.ofDatum b.flagPolicy) >>= _ : Action Memory _) m' = _
  cases FlagPolicy.ofDatum b.flagPolicy with
  | error fault => rfl
  | ok policy =>
    rw [demand_bind rfl, get_bind]
    have hstart : startCpu (b.withImages images).start (Cpu.ofMemory m' policy) = _ :=
      startCpu_ofMemory b.start m' policy
    rw [hstart]
    cases startState b.start {} with
    | ok _ s => rfl
    | error fault s => rfl

/-- Images that share no address leave the same memory in any order. -/
theorem storeRuns_perm {images' : List ProgramImage}
    (h : ∀ image ∈ images, image.Loadable files) (hperm : images'.Perm images)
    (hapart : images.Pairwise (Apart files)) (m : Memory) :
    m.storeEach ((images'.flatMap (ProgramImage.runs files)).flatMap Run.places)
      = m.storeEach ((images.flatMap (ProgramImage.runs files)).flatMap Run.places) := by
  have hsymm {i j : ProgramImage} (hij : Apart files i j) : Apart files j i :=
    fun a => (hij a).symm
  have hapart' : images'.Pairwise (Apart files) := (hperm.pairwise_iff hsymm).2 hapart
  have h' : ∀ image ∈ images', image.Loadable files :=
    fun image himage => h image (hperm.mem_iff.1 himage)
  apply Memory.ext_byteAt
  · intro a
    have hlast : lastOf? (·.byte? files a) images' = lastOf? (·.byte? files a) images := by
      ext v
      rw [lastOf?_eq_some_iff (hapart'.imp fun hij => hij a),
        lastOf?_eq_some_iff (hapart.imp fun hij => hij a)]
      exact exists_congr fun image => and_congr_left' hperm.mem_iff
    rw [byteAt_images h', byteAt_images h, hlast]
  · rw [Memory.log_storeEach, Memory.log_storeEach]

/-- **The last image decides.**  Images that can be placed leave at every address the byte of the
last one that covers it, and where none does the byte that was there; nothing is logged.  Each run
of an image covers an address with at most one of its bytes.  Whether a processor starts, and in
which state, does not depend on the images, and if no two of them cover an address both, neither
does the memory on their order.  A raw image that is longer than the space is refused with the
memory as the images before it left it. -/
theorem build_covers (b : Blueprint) (h : ∀ image ∈ images, image.Loadable files) (m : Memory) :
    ∃ m', b.Places files images m m' ∧ m'.log = m.log
      ∧ (∀ a, m'.byteAt a = (lastOf? (·.byte? files a) images).getD (m.byteAt a))
      ∧ (∀ image ∈ images, ∀ r ∈ image.runs files, ∀ a v, r.byte? a = some v
          ↔ ∃! i : Nat, r.bytes[i]? = some v ∧ UInt16.ofInt (r.start + i) = a)
      ∧ (images.Pairwise (Apart files) →
          ∀ images', images'.Perm images → b.Places files images' m m')
      ∧ ∀ (big : ProgramImage) (name : Text) (bytes : List UInt8), big.format = .binary →
          files.read big.path = .ok (name, bytes) → UInt16.size < bytes.length →
          ∀ rest, (b.withImages (images ++ big :: rest)).buildCpu files m
            = .error (.imageSize name bytes.length) m' := by
  have hloads := loads_eq h m
  refine ⟨_, places_of_loads b hloads, Memory.log_storeEach _ _, byteAt_images h m, ?_, ?_, ?_⟩
  · intro image himage r hr a v
    exact Run.byte?_eq_some_iff ((h image himage).fits r hr)
  · intro hapart images' hperm
    have h' : ∀ image ∈ images', image.Loadable files :=
      fun image himage => h image (hperm.mem_iff.1 himage)
    rw [← storeRuns_perm h hperm hapart m]
    exact places_of_loads b (loads_eq h' m)
  · intro big name bytes hformat hread hsize rest
    obtain ⟨notices, hplaced⟩ := placeImages_eq hloads
    have hrefused := placeImage_oversize hformat hread hsize
    have hprograms : (b.withImages (images ++ big :: rest)).programs
        = images.map ProgramImage.toSpec ++ big.toSpec :: rest.map ProgramImage.toSpec := by
      rw [withImages, List.map_append, List.map_cons]
    rw [buildCpu, hprograms]
    exact bind_of_error (placeImages_append_of_error hplaced (hrefused _)) _

/-- A raw image over the end of the space, and a hexadecimal one on its second byte. -/
def seam : List ProgramImage := [⟨.str "a.bin", -1, .binary⟩, ⟨.str "b.hex", 0, .ihex⟩]

/-- The files of these images, and one that is a byte too long. -/
def seamFiles : Files :=
  [(⟨.own, "a.bin"⟩, [1, 2, 3]),
    (⟨.own, "b.hex"⟩, Text.encodeUtf8 ":01000000AB54\n:00000001FF\n".toList),
    (⟨.own, "c.bin"⟩, List.replicate 65537 7)]

theorem build_covers_seam :
    ∃ m', Places {} seamFiles seam Memory.zero m' ∧ m'.byteAt 0xFFFF = 1 ∧ m'.byteAt 0 = 0xAB
      ∧ m'.byteAt 1 = 3 ∧ m'.byteAt 2 = 0
      ∧ (withImages {} (seam ++ [⟨.str "c.bin", 0, .binary⟩])).buildCpu seamFiles Memory.zero
        = .error (.imageSize "c.bin" 65537) m' := by
  have hraw : seamFiles.read (.str "a.bin") = .ok ("a.bin", [1, 2, 3]) := by rfl
  obtain ⟨_, hload⟩ : ∃ m, Image.loadHex (Text.encodeUtf8 ":01000000AB54\n:00000001FF\n".toList)
      Memory.zero = .ok 1 m := Action.value?_eq_some_iff.1 (by decide +kernel)
  have hlong : seamFiles.read (.str "c.bin") = .ok ("c.bin", List.replicate 65537 7) := by rfl
  have hlength : (List.replicate 65537 (7 : UInt8)).length = 65537 := List.length_replicate
  have hseam : ∀ image ∈ seam, image.Loadable seamFiles :=
    List.forall_mem_cons.2 ⟨.binary hraw (by decide), List.forall_mem_singleton.2 (.ihex rfl hload)⟩
  obtain ⟨m', hplaces, -, hbyte, -, -, hrefused⟩ := build_covers {} hseam Memory.zero
  have hbig := hrefused ⟨.str "c.bin", 0, .binary⟩ _ _ rfl hlong (by rw [hlength]; decide) []
  rw [hlength] at hbig
  refine ⟨m', hplaces, ?_, ?_, ?_, ?_, hbig⟩
  · rw [hbyte]
    decide +kernel
  · rw [hbyte]
    decide +kernel
  · rw [hbyte]
    decide +kernel
  · rw [hbyte, Memory.byteAt_zero]
    decide +kernel

end Blueprint

end Emu8080
