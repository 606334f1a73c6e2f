/-
# Emu8080.Proofs.Build -- building what a document describes

A document that is read gives names that exist, integers, and each register once;
that is all that building asks for.  So a description that comes from a document
builds whenever its images load: the processor starts in the state that the
description lists, every value reduced to its width, and the debugger has the
rule and the bound of the description.

The starting state is told by what each field holds (`StartsIn`), so it does not
depend on the processor that is started; starting leaves the memory alone
(`startCpu_eq`).
-/
import Emu8080.Proofs.Document
import Emu8080.Proofs.FlagByte
import Emu8080.Proofs.Step
import Emu8080.System

namespace Emu8080

set_option autoImplicit false

open Emu8080.Action (bind_of_ok get_bind modify_bind demand_bind whole_bind pure_bind_apply)

/-! ## Registers -/

namespace CpuState

/-- Store the low bytes of integers into registers, in order. -/
def setEach (s : CpuState) (values : List (Reg × Int)) : CpuState :=
  values.foldl (fun s e => s.set e.1 (.int (e.2 % 256))) s

/-- What no register has a part in stays. -/
theorem setEach_frame {α : Type} {view : CpuState → α}
    (hview : ∀ s r d, view (s.set r d) = view s) (values : List (Reg × Int)) (s : CpuState) :
    view (s.setEach values) = view s := by
  induction values generalizing s with
  | nil => rfl
  | cons e rest ih => exact (ih (s.set e.1 (.int (e.2 % 256)))).trans (hview s e.1 _)

theorem setEach_of_not_mem {r : Reg} {values : List (Reg × Int)}
    (hr : r ∉ values.map Prod.fst) (s : CpuState) : (s.setEach values).get r = s.get r := by
  induction values generalizing s with
  | nil => rfl
  | cons e rest ih =>
    rw [List.map_cons, List.mem_cons, not_or] at hr
    exact (ih hr.2 _).trans (get_set_of_ne s hr.1 _)

/-- A register that is listed once holds its byte, and one that is not listed what it held. -/
theorem get_setEach {values : List (Reg × Int)} (hvalues : (values.map Prod.fst).Nodup)
    (s : CpuState) (r : Reg) :
    (s.setEach values).get r
      = ((values.lookup r).map fun n => .int (n % 256)).getD (s.get r) := by
  induction values generalizing s with
  | nil => rfl
  | cons e rest ih =>
    obtain ⟨q, n⟩ := e
    obtain ⟨hq, hrest⟩ := List.nodup_cons.1 hvalues
    show ((s.set q (.int (n % 256))).setEach rest).get r = _
    by_cases hr : r = q
    · subst hr
      rw [setEach_of_not_mem hq, get_set_self, List.lookup_cons_self]
      rfl
    · rw [ih hrest, get_set_of_ne s hr, List.lookup_cons, beq_false_of_ne hr]

end CpuState

/-! ## The starting state -/

namespace InitialState

/-- The state holds what the description lists, reduced to the width of each register, and zero
where it lists nothing. -/
structure StartsIn (i : InitialState) (s : CpuState) : Prop where
  pc : s.pc = .int (i.pc % 65536)
  sp : s.sp = .int (i.sp % 65536)
  reg : ∀ r, s.get r = .int ((i.registers.lookup r).getD 0 % 256)
  flag : ∀ f, s.cc.get f = .int (i.flags.getD 0 / f.weight % 2)
  intEnable : s.intEnable = .int (if i.interrupts then 1 else 0)
  bus : s.bus = .memory
  extras : s.extras = []

/-- A fresh state with the registers of a description. -/
def loaded (i : InitialState) : CpuState :=
  CpuState.setEach { pc := .int (i.pc % 65536), sp := .int (i.sp % 65536) } i.registers

/-- The state that a description starts in. -/
def state (i : InitialState) : CpuState :=
  { i.loaded with
    cc := (i.flags.map ConditionCodes.ofByte).getD i.loaded.cc
    intEnable := .int (if i.interrupts then 1 else 0) }

variable {i : InitialState}

theorem startsIn_state (hi : (i.registers.map Prod.fst).Nodup) : i.StartsIn i.state where
  pc := CpuState.setEach_frame CpuState.pc_set i.registers _
  sp := CpuState.setEach_frame CpuState.sp_set i.registers _
  reg r := by
    have hget : i.state.get r = i.loaded.get r := by cases r <;> rfl
    rw [hget, loaded, CpuState.get_setEach hi]
    cases i.registers.lookup r with
    | some n => rfl
    | none => cases r <;> rfl
  flag f := by
    rw [state]
    cases i.flags with
    | some n => exact ConditionCodes.get_ofByte n f
    | none =>
      have hcc : i.loaded.cc = ConditionCodes.clear :=
        CpuState.setEach_frame CpuState.cc_set i.registers _
      show Flags.get i.loaded.cc f = _
      rw [hcc]
      cases f <;> rfl
  intEnable := rfl
  bus := CpuState.setEach_frame CpuState.bus_set i.registers _
  extras := CpuState.setEach_frame CpuState.extras_set i.registers _

/-- What a description lists are integers of their widths and bits. -/
theorem StartsIn.ready {m : Machine} (h : i.StartsIn m.state) : m.Ready where
  whole :=
    { reg := fun r => by
        rw [h.reg]
        exact Datum.isSome_within?_emod CpuState.maxByte _
      sp := by
        rw [h.sp]
        exact Datum.isSome_within?_emod CpuState.maxWord _
      pc := by
        rw [h.pc]
        exact Datum.isSome_within?_emod CpuState.maxWord _
      flag := fun f => by
        rw [h.flag]
        exact Datum.isSome_within?_emod 1 _
      intEnable := by
        rw [h.intEnable]
        split <;> rfl }
  bus := h.bus
  checked := by
    rw [CpuState.isChecked, CpuState.extra?, h.extras]
    rfl

end InitialState

theorem Machine.Ready.domain {m : Machine} (h : m.Ready) : m.state.Domain :=
  ⟨h.whole.reg, h.whole.pc, h.whole.sp, fun f => Datum.isBit_of_within? (h.whole.flag f),
    Datum.isBit_of_within? h.whole.intEnable, h.bus, h.checked⟩

namespace Blueprint

/-! ## Starting -/

theorem setField_reg (r : Reg) (n : Int) (s : CpuState) :
    setField true r.name (.int n) s = .ok true (s.set r (.int (n % 256))) := by
  cases r <;> rfl

theorem setFields_registers (values : List (Reg × Int)) (s : CpuState) :
    setFields true (values.map fun e => (.str e.1.name, .int e.2)) s
      = .ok true (s.setEach values) := by
  induction values generalizing s with
  | nil => rfl
  | cons e rest ih =>
    rw [List.map_cons, setFields, bind_of_ok (setField_reg e.1 e.2 s)]
    exact ih _

/-- A fresh state becomes the one that the description starts in. -/
theorem startState_eq {i : InitialState} (hi : (i.registers.map Prod.fst).Nodup) :
    startState i.toSpec {} = .ok () i.state := by
  have hready : Machine.Ready { state := i.state } :=
    InitialState.StartsIn.ready (InitialState.startsIn_state hi)
  have hvalid : i.state.validate = .ok () := hready.validate_eq
  have hdemand : Action.demand i.state.validate i.state = .ok () i.state := by
    rw [hvalid, Action.demand_ok]
  have hentries : registerEntries i.toSpec.registers
      = .ok (i.registers.map fun e => (.str e.1.name, .int e.2)) := rfl
  rw [startState, whole_bind rfl, modify_bind, whole_bind rfl, modify_bind, demand_bind hentries,
    bind_of_ok (setFields_registers i.registers _)]
  have hcodes (s : CpuState) : ¬(s.isChecked && !true) = true := by simp
  have hstate : i.state = { i.loaded with
      cc := (i.flags.map ConditionCodes.ofByte).getD i.loaded.cc
      intEnable := i.toSpec.intEnable } := rfl
  have hloaded : CpuState.setEach { pc := .int (i.pc % 65536), sp := .int (i.sp % 65536) }
      i.registers = i.loaded := rfl
  rw [hloaded]
  generalize i.loaded = s at hstate ⊢
  -- flags that are given replace the condition codes; the check behind them is the same
  cases hflags : i.flags with
  | none =>
    have hspec : i.toSpec.flags = .null := congrArg Datum.ofInt? hflags
    rw [hflags] at hstate
    rw [hspec]
    show (pure true >>= _ : Action CpuState Unit) s = _
    rw [pure_bind_apply]
    beta_reduce
    rw [modify_bind, get_bind, if_neg (hcodes _), hstate]
    rw [hstate] at hdemand
    exact hdemand
  | some n =>
    have hspec : i.toSpec.flags = .int n := congrArg Datum.ofInt? hflags
    rw [hflags] at hstate
    rw [hspec]
    show (Action.whole (.int n) >>= _ : Action CpuState Unit) s = _
    rw [whole_bind rfl, modify_bind, pure_bind_apply]
    beta_reduce
    rw [modify_bind, get_bind, if_neg (hcodes _), hstate]
    rw [hstate] at hdemand
    exact hdemand

/-- Starting a processor puts it into the state of the description, whatever it did before, and
leaves its memory and its policy alone. -/
theorem startCpu_eq {i : InitialState} (hi : (i.registers.map Prod.fst).Nodup) (cpu : Cpu) :
    startCpu i.toSpec cpu
      = .ok () { machine := ⟨i.state, cpu.memory⟩, policy := cpu.policy, count := 0 } := by
  have hstate : Machine.onState (startState i.toSpec) cpu.reset.machine
      = .ok () ⟨i.state, cpu.memory⟩ := Action.within_of_ok (startState_eq hi)
  rw [startCpu, modify_bind, Cpu.onMachine_of_ok hstate]
  rfl

/-! ## Images -/

/-- The bytes of an image are placed. -/
def loadImage (image : ProgramImage) (path : Text) (bytes : List UInt8) : Action Memory Nat :=
  match image.format with
  | .ihex => Image.loadHex bytes
  | .binary => Image.loadBinary path bytes (.int image.address)

/-- The images load into a memory, each over what the ones before it left. -/
inductive Loads (files : Files) : List ProgramImage → Memory → Memory → Prop
  | nil (m : Memory) : Loads files [] m m
  | cons {image : ProgramImage} {rest : List ProgramImage} {m m₁ m₂ : Memory} {path : Text}
      {bytes : List UInt8} {count : Nat} (hread : files.read image.path = .ok (path, bytes))
      (hload : loadImage image path bytes m = .ok count m₁) (hrest : Loads files rest m₁ m₂) :
      Loads files (image :: rest) m m₂

/-- An image that loads is placed. -/
theorem placeImage_of_load {files : Files} {image : ProgramImage} {m m' : Memory} {path : Text}
    {bytes : List UInt8} {count : Nat} (hread : files.read image.path = .ok (path, bytes))
    (hload : loadImage image path bytes m = .ok count m') :
    ∃ notices, placeImage files image.toSpec m = .ok notices m' := by
  have hspec : files.read image.toSpec.path = .ok (path, bytes) := hread
  have hihex : (Datum.str ImageFormat.ihex.name).agrees (.str ImageFormat.ihex.name) = true := rfl
  have hbinary : ¬(Datum.str ImageFormat.binary.name).agrees (.str ImageFormat.ihex.name) = true :=
    Bool.false_ne_true
  have hformat : image.toSpec.format = .str image.format.name := rfl
  rw [placeImage, demand_bind hspec, hformat]
  rw [loadImage] at hload
  cases himage : image.format with
  | ihex =>
    rw [himage] at hload
    have hplaced : Image.loadHex bytes m = .ok count m' := hload
    dsimp only
    rw [if_pos hihex, bind_of_ok hplaced]
    exact ⟨_, rfl⟩
  | binary =>
    rw [himage] at hload
    have hplaced : Image.loadBinary path bytes image.toSpec.address m = .ok count m' := hload
    dsimp only
    rw [if_neg hbinary, bind_of_ok hplaced]
    exact ⟨_, rfl⟩

theorem placeImages_eq {files : Files} {images : List ProgramImage} {m m' : Memory}
    (h : Loads files images m m') :
    ∃ notices, placeImages files (images.map ProgramImage.toSpec) m = .ok notices m' := by
  induction h with
  | nil m => exact ⟨[], rfl⟩
  | cons hread hload _ ih =>
    obtain ⟨first, hfirst⟩ := placeImage_of_load hread hload
    obtain ⟨notices, hnotices⟩ := ih
    refine ⟨first ++ notices, ?_⟩
    rw [List.map_cons, placeImages, bind_of_ok hfirst, bind_of_ok hnotices]
    rfl

/-! ## Systems -/

theorem flagPolicy_ofDatum (policy : FlagPolicy) :
    FlagPolicy.ofDatum (.str policy.name) = .ok policy := by
  cases policy <;> rfl

theorem trapPolicy_ofDatum (policy : TrapPolicy) :
    TrapPolicy.ofDatum (.str policy.name) = .ok policy := by
  cases policy <;> rfl

theorem buildDebugger_eq (c : SystemConfig) (cpu : Cpu) :
    c.toBlueprint.buildDebugger cpu
      = .ok { cpu, trapPolicy := c.trapPolicy, limit := Datum.ofInt? c.maxSteps,
              before := cpu.state } := by
  have hpolicy : TrapPolicy.ofDatum c.toBlueprint.trapPolicy = .ok c.trapPolicy :=
    trapPolicy_ofDatum c.trapPolicy
  rw [buildDebugger, hpolicy]
  rfl

/-- **Accepted configurations build.**  What a document gives is built into a system whenever its
images load: a processor with the policy of the configuration and no instructions counted, over the
memory that the images left and in the starting state, under a debugger with the rule and the bound
of the configuration.  Starting any other processor gives the same state, whatever that processor
held, leaves its memory and its policy as they were, and changes nothing when done again. -/
theorem build_accepted {d : Datum} {c : SystemConfig} (hparse : SystemConfig.parse d = .ok c)
    {files : Files} {memory memory' : Memory} (hloads : Loads files c.programs memory memory') :
    ∃ cpu notices debugger,
      c.toBlueprint.buildCpu files memory = .ok (cpu, notices) memory'
      ∧ c.toBlueprint.buildDebugger cpu = .ok debugger
      ∧ cpu.policy = c.flagPolicy ∧ cpu.count = 0 ∧ cpu.memory = memory'
      ∧ c.initialState.StartsIn cpu.state ∧ cpu.state.Domain
      ∧ debugger.cpu = cpu ∧ debugger.trapPolicy = c.trapPolicy
      ∧ debugger.limit = Datum.ofInt? c.maxSteps
      ∧ ∀ other : Cpu, ∃ started, startCpu c.initialState.toSpec other = .ok () started
          ∧ started.state = cpu.state ∧ started.count = 0 ∧ started.memory = other.memory
          ∧ started.policy = other.policy
          ∧ startCpu c.initialState.toSpec started = .ok () started := by
  have hnodup : (c.initialState.registers.map Prod.fst).Nodup := by
    cases d with
    | map entries => exact ((SystemConfig.parse_yields entries).of_ok hparse).registers
    | null | bool b | int n | float x | str s | list items => exact nomatch hparse
  obtain ⟨notices, hplaced⟩ := placeImages_eq hloads
  have hnotices : placeImages files c.toBlueprint.programs memory = .ok notices memory' := hplaced
  have hstarts : c.initialState.StartsIn c.initialState.state :=
    InitialState.startsIn_state hnodup
  have hready : Machine.Ready ⟨c.initialState.state, memory'⟩ := hstarts.ready
  have hpolicy : FlagPolicy.ofDatum c.toBlueprint.flagPolicy = .ok c.flagPolicy :=
    flagPolicy_ofDatum c.flagPolicy
  have hstart := startCpu_eq hnodup
  refine ⟨⟨⟨c.initialState.state, memory'⟩, c.flagPolicy, 0⟩, notices, _, ?_,
    buildDebugger_eq c _, rfl, rfl, rfl, hstarts, hready.domain, rfl, rfl, rfl, fun other =>
    ⟨_, hstart other, rfl, rfl, rfl, rfl, hstart _⟩⟩
  have hbuilt : startCpu c.toBlueprint.start (Cpu.ofMemory memory' c.flagPolicy)
      = .ok () ⟨⟨c.initialState.state, memory'⟩, c.flagPolicy, 0⟩ :=
    hstart (Cpu.ofMemory memory' c.flagPolicy)
  rw [buildCpu, bind_of_ok hnotices, demand_bind hpolicy, get_bind, hbuilt]
  rfl

/-- A document with values over their widths, and an image at the last address. -/
def overWidth : Datum :=
  .map [(.str "flag_policy", .str "CLEAR"), (.str "max_steps", .str "0x10"),
    (.str "programs", .list [.map [(.str "path", .str "a.bin"), (.str "address", .int (-1))]]),
    (.str "initial_state", .map [(.str "pc", .int 0x1FFFF), (.str "flags", .int 0x39),
      (.str "registers", .map [(.str "A", .int 300), (.str "l", .int (-1))])])]

theorem build_accepted_over_width :
    ∃ c cpu notices debugger memory', SystemConfig.parse overWidth = .ok c
      ∧ c.toBlueprint.buildCpu [(⟨.own, "a.bin"⟩, [0x76])] Memory.zero = .ok (cpu, notices) memory'
      ∧ c.toBlueprint.buildDebugger cpu = .ok debugger
      ∧ cpu.memory.byteAt 0xFFFF = 0x76 ∧ cpu.state.pc = .int 0xFFFF ∧ cpu.state.a = .int 44
      ∧ cpu.state.l = .int 0xFF ∧ cpu.state.b = .int 0 ∧ cpu.state.cc.get .cy = .int 1
      ∧ cpu.policy = .clear ∧ debugger.limit = .int 16 := by
  have hparse : SystemConfig.parse overWidth = .ok
      { architecture := "8080", flagPolicy := .clear, trapPolicy := .halt, maxSteps := some 16
        programs := [⟨.str "a.bin", -1, .binary⟩]
        initialState :=
          { pc := 0x1FFFF, registers := [(.a, 300), (.l, -1)], flags := some 0x39 } } := by rfl
  have hread : Files.read [(⟨.own, "a.bin"⟩, [0x76])] (.str "a.bin") = .ok ("a.bin", [0x76]) := by
    rfl
  have hload : loadImage ⟨.str "a.bin", -1, .binary⟩ "a.bin" [0x76] Memory.zero
      = .ok 1 (Memory.zero.storeAll 0xFFFF [0x76]) := by rfl
  obtain ⟨cpu, notices, debugger, hcpu, hdebugger, hpolicy, -, hmemory, hstate, -, -, -, hlimit, -⟩ :=
    build_accepted hparse (.cons hread hload (.nil _))
  refine ⟨_, cpu, notices, debugger, _, hparse, hcpu, hdebugger, ?_, hstate.pc, hstate.reg .a,
    hstate.reg .l, hstate.reg .b, hstate.flag .cy, hpolicy, hlimit⟩
  rw [hmemory]
  exact (Memory.byteAt_store _ _ _ _).trans (if_pos rfl)

end Blueprint
end Emu8080
