/-
# Emu8080.Proofs.ByteStore -- what a memory answers

Seen from outside a memory is a ring of bytes with a trace.  What a request
stores is known from the request alone (`stores`), so the byte at an address is
the one that was stored there last, whatever else was asked and however much of
it was refused (`current`).  Only reads and writes that succeed are in the trace,
each with the byte that was current when it was made (`access?`).

What one request does to a memory is one equation (`final_answer`).  A history of
requests follows by induction: its bytes in `byteAt_after`, its trace in
`log_after`.
-/
import Emu8080.Proofs.Access
import Emu8080.Proofs.Coverage
import Emu8080.Store

namespace Emu8080

set_option autoImplicit false

open Emu8080.Action (bind_of_ok bind_of_error get_bind demand_bind final final_of_ok final_of_error final_map)

namespace MemoryRequest

open Memory (Place spread)

/-! ## One request -/

/-- The places of bytes from an address on; there are none if it is no address. -/
def placesAt (address : Datum) (bytes : List UInt8) : List Place :=
  match address.int? with
  | some n => spread n bytes
  | none => []

/-- What a request stores, in order. -/
def stores (files : Files) : MemoryRequest → List Place
  | .write address data | .put address data => placesAt address (leadingBytes [data]).1
  | .load address values => placesAt address (leadingBytes (values.elements?.getD [])).1
  | .loadBinary name address =>
      match files.read name with
      | .ok (_, bytes) => if bytes.length ≤ UInt16.size then placesAt address bytes else []
      | .error _ => []
  | .loadHex name =>
      match files.read name with
      | .ok (_, bytes) => (Image.hexRuns bytes).flatMap Run.places
      | .error _ => []
  | _ => []

/-- The bus access that a request makes, if it makes one, where addresses hold the given bytes. -/
def access? (byte : UInt16 → UInt8) : MemoryRequest → Option Access
  | .read address =>
      address.int?.map fun n => .read (UInt16.ofInt n) (byte (UInt16.ofInt n))
  | .write address data =>
      match address.int?, data.within? 0xFF with
      | some n, some _ => some (.write (UInt16.ofInt n) data (byte (UInt16.ofInt n)))
      | _, _ => none
  | _ => none

/-- The log after a request. -/
def logAfter (m : Memory) : MemoryRequest → List Access
  | .takeLog => []
  | r => m.log ++ (r.access? m.byteAt).toList

variable {files : Files} {address : Datum}

theorem leadingBytes_singleton (data : Datum) :
    (leadingBytes [data]).1
      = ((data.within? 0xFF).map fun k => UInt8.ofNat k).toList := by
  rw [leadingBytes, byteOf]
  cases data.within? 0xFF <;> rfl

/-- A request that only stores leaves the log as it was. -/
theorem stored_eq (m : Memory) (places : List Place) :
    { m.storeEach places with log := m.log ++ [] } = m.storeEach places := by
  rw [List.append_nil, ← Memory.log_storeEach m places]

theorem final_load (address : Datum) (values : List Datum) (m : Memory) :
    (Memory.load address values).final m
      = m.storeEach (placesAt address (leadingBytes values).1) := by
  rw [placesAt]
  cases h : address.int? with
  | none => exact final_of_error (Memory.load_of_none h values m)
  | some n => exact Memory.final_load_of_some h values m

theorem final_loadBinary (path : Text) (bytes : List UInt8) (address : Datum) (m : Memory) :
    (Image.loadBinary path bytes address).final m
      = m.storeEach (if bytes.length ≤ UInt16.size then placesAt address bytes else []) := by
  by_cases hsize : bytes.length ≤ UInt16.size
  · rw [if_pos hsize, Image.loadBinary, if_neg (Nat.not_lt.2 hsize)]
    show (Memory.load address _).final m = _
    rw [final_load, leadingBytes_bytes]
  · rw [if_neg hsize]
    exact final_of_error (Image.loadBinary_oversize (Nat.lt_of_not_le hsize) address m)

theorem final_loadHex (bytes : List UInt8) (m : Memory) :
    (Image.loadHex bytes).final m = m.storeEach ((Image.hexRuns bytes).flatMap Run.places) := by
  obtain ⟨outcome, houtcome⟩ := Image.loadLines_eq (Text.decodeUtf8 bytes).damaged 1 0 0
    (Text.decodeUtf8 bytes).lines
  have hload : Image.loadHex bytes m = _ := houtcome m
  cases outcome with
  | ok count => exact final_of_ok hload
  | error fault => exact final_of_error hload

theorem final_loadElements (address values : Datum) (m : Memory) :
    (Memory.loadElements address values).final m
      = m.storeEach (placesAt address (leadingBytes (values.elements?.getD [])).1) := by
  cases h : address.int? with
  | none =>
    have hrefused : Memory.loadElements address values m
        = .error (.showing address (.addressKind address)) m := by
      rw [Memory.loadElements, addressOf_of_none h]
      rfl
    rw [final_of_error hrefused, placesAt, h]
    rfl
  | some n =>
    rw [final, Memory.loadElements, demand_bind (addressOf_of_some h), Datum.elements]
    cases values.elements? with
    | none =>
      show m = m.storeEach (placesAt address [])
      rw [placesAt, h]
      rfl
    | some items => exact final_load address items m

theorem final_read (address : Datum) (m : Memory) :
    (Memory.read address).final m
      = { m with log := m.log ++ ((read address).access? m.byteAt).toList } := by
  rw [access?]
  cases h : address.int? with
  | none =>
    rw [final_of_error (Memory.read_of_none h m)]
    exact (stored_eq m []).symm
  | some n =>
    rw [final_of_ok (Memory.read_of_some h m)]
    rfl

theorem final_write (files : Files) (address data : Datum) (m : Memory) :
    (Memory.write address data).final m
      = { m.storeEach ((write address data).stores files) with
          log := m.log ++ ((write address data).access? m.byteAt).toList } := by
  rw [access?, stores, placesAt, leadingBytes_singleton]
  cases h : address.int? with
  | none =>
    rw [final_of_error (Memory.write_of_none h data m)]
    exact (stored_eq m []).symm
  | some n =>
    cases hdata : data.within? 0xFF with
    | none =>
      rw [final_of_error (Memory.write_of_range h hdata m)]
      exact (stored_eq m []).symm
    | some k =>
      have hbyte : byteOf data = .ok (UInt8.ofNat k) := by rw [byteOf, hdata]
      have hplace : spread n [UInt8.ofNat k] = [(UInt16.ofInt n, UInt8.ofNat k)] :=
        Memory.spread_cons n _ []
      rw [final_of_ok (Memory.write_of_some h hbyte m)]
      dsimp only [Option.map_some, Option.toList_some]
      rw [hplace]
      rfl

theorem final_peek (address : Datum) (m : Memory) : (Memory.peek address).final m = m := by
  cases h : address.int? with
  | none => exact final_of_error (Memory.peek_of_none h m)
  | some n => exact final_of_ok (Memory.peek_of_some h m)

/-- What a request does to a memory: it stores what it stores, and logs the access it makes. -/
theorem final_answer (files : Files) (r : MemoryRequest) (m : Memory) :
    (r.answer files).final m = { m.storeEach (r.stores files) with log := r.logAfter m } := by
  cases r with
  | read address => exact (final_map _ _ m).trans (final_read address m)
  | write address data => exact (final_map _ _ m).trans (final_write files address data m)
  | takeLog => rfl
  | peek address =>
    exact (final_map _ _ m).trans ((final_peek address m).trans (stored_eq m []).symm)
  | put address data =>
    have hput : (Memory.put address data).final m = (Memory.load address [data]).final m :=
      final_map _ _ m
    rw [final_load] at hput
    exact (final_map _ _ m).trans (hput.trans (stored_eq m _).symm)
  | load address values =>
    have hload := final_loadElements address values m
    exact (final_map _ _ m).trans (hload.trans (stored_eq m _).symm)
  | size => exact (stored_eq m []).symm
  | summary => exact (stored_eq m []).symm
  | slice address count =>
    refine Eq.trans ?_ (stored_eq m []).symm
    rw [final, answer, get_bind]
    cases m.sliceOf address count <;> rfl
  | loadBinary name address =>
    refine Eq.trans ?_ (stored_eq m _).symm
    rw [stores, final, answer]
    cases files.read name with
    | error fault => rfl
    | ok file =>
      rw [demand_bind rfl, ← final_loadBinary file.1 file.2 address m]
      exact final_map _ _ m
  | loadHex name =>
    refine Eq.trans ?_ (stored_eq m _).symm
    rw [stores, final, answer]
    cases files.read name with
    | error fault => rfl
    | ok file =>
      rw [demand_bind rfl, ← final_loadHex file.2 m]
      exact final_map _ _ m

/-! ## Histories -/

variable {back : List MemoryRequest}

/-- The memory after requests, whatever came of them. -/
def after (files : Files) (start : Memory) (before : List MemoryRequest) : Memory :=
  before.foldl (fun m r => (r.answer files).final m) start

/-- The byte that was stored last at an address, or the one that was there at the start. -/
def current (files : Files) (start : Memory) (before : List MemoryRequest) (a : UInt16) : UInt8 :=
  ((before.flatMap (stores files)).reverse.lookup a).getD (start.byteAt a)

/-- The accesses that requests make in turn, behind those that are done. -/
def accesses (files : Files) (start : Memory) (done : List MemoryRequest) :
    List MemoryRequest → List Access
  | [] => []
  | r :: rest =>
      (r.access? (current files start done)).toList ++ accesses files start (done ++ [r]) rest

theorem after_append (files : Files) (start : Memory) (front back : List MemoryRequest) :
    after files start (front ++ back) = after files (after files start front) back :=
  List.foldl_append

theorem byteAt_after (files : Files) (start : Memory) (before : List MemoryRequest) (a : UInt16) :
    (after files start before).byteAt a = current files start before a := by
  induction before generalizing start with
  | nil => rfl
  | cons r rest ih =>
    have hbyte : ((r.answer files).final start).byteAt a
        = (start.storeEach (r.stores files)).byteAt a := by
      rw [final_answer]
      rfl
    rw [current, List.flatMap_cons, List.reverse_append, List.lookup_append, Option.getD_or,
      ← Memory.byteAt_storeEach, ← hbyte]
    exact ih _

theorem log_after_snoc (files : Files) (start : Memory) (front : List MemoryRequest)
    {r : MemoryRequest} (hr : r ≠ .takeLog) :
    (after files start (front ++ [r])).log
      = (after files start front).log ++ (r.access? (current files start front)).toList := by
  have hbytes : (after files start front).byteAt = current files start front :=
    funext (byteAt_after files start front)
  rw [after_append, ← hbytes]
  show ((r.answer files).final (after files start front)).log = _
  rw [final_answer]
  cases r with
  | takeLog => exact absurd rfl hr
  | _ => rfl

/-- As long as the log is not taken, it grows by the accesses that are made. -/
theorem log_after (files : Files) (start : Memory) (front : List MemoryRequest)
    (hback : .takeLog ∉ back) :
    (after files start (front ++ back)).log
      = (after files start front).log ++ accesses files start front back := by
  induction back generalizing front with
  | nil => rw [List.append_nil, accesses, List.append_nil]
  | cons r rest ih =>
    rw [List.mem_cons, not_or] at hback
    obtain ⟨hr, hrest⟩ := hback
    rw [List.append_cons, ih _ hrest, log_after_snoc files start front (Ne.symm hr), accesses,
      List.append_assoc]

theorem log_after_takeLog (files : Files) (start : Memory) (front : List MemoryRequest) :
    (after files start (front ++ [.takeLog])).log = [] := by
  rw [after_append]
  rfl

/-- The address that a request is made at. -/
def address? : MemoryRequest → Option Datum
  | .read address | .peek address => some address
  | .write address _ | .put address _ | .load address _ => some address
  | _ => none

/-- What a memory answers where its addresses hold the given bytes.  An integer is an address,
modulo the size of the space; what is no address, and a write of what is no byte, is refused with
the memory as it was.  The fault is one of the memory just if the value that it shows can be
written. -/
structure Serves (files : Files) (m : Memory) (byte : UInt16 → UInt8) : Prop where
  read {address : Datum} {n : Int} (h : address.int? = some n) :
    ∃ m', answer files (.read address) m = .ok (.byte (byte (UInt16.ofInt n))) m'
  peek {address : Datum} {n : Int} (h : address.int? = some n) :
    answer files (.peek address) m = .ok (.byte (byte (UInt16.ofInt n))) m
  write {address data : Datum} {n : Int} {k : Nat} (h : address.int? = some n)
    (hdata : data.within? 0xFF = some k) :
    ∃ m', answer files (.write address data) m = .ok .nothing m'
  range {address data : Datum} {n : Int} (h : address.int? = some n)
    (hdata : data.within? 0xFF = none) :
    answer files (.write address data) m = .error (.showing data (.dataRange data)) m
  address {r : MemoryRequest} {address : Datum} (hr : r.address? = some address)
    (h : address.int? = none) :
    answer files r m = .error (.showing address (.addressKind address)) m

theorem answer_of_address_none {r : MemoryRequest} (hr : r.address? = some address)
    (h : address.int? = none) (m : Memory) :
    answer files r m = .error (.showing address (.addressKind address)) m := by
  cases r with
  | read address =>
    cases hr
    exact bind_of_error (Memory.read_of_none h m) _
  | write address data =>
    cases hr
    exact bind_of_error (Memory.write_of_none h data m) _
  | peek address =>
    cases hr
    exact bind_of_error (Memory.peek_of_none h m) _
  | put address data =>
    cases hr
    exact bind_of_error (bind_of_error (Memory.load_of_none h [data] m) _) _
  | load address values =>
    cases hr
    rw [answer, Memory.loadElements, addressOf_of_none h]
    rfl
  | takeLog | size | summary | slice | loadBinary | loadHex => exact nomatch hr

theorem serves (files : Files) (m : Memory) : Serves files m m.byteAt where
  read h := ⟨_, bind_of_ok (Memory.read_of_some h m) _⟩
  peek h := bind_of_ok (Memory.peek_of_some h m) _
  write h hdata := ⟨_, bind_of_ok (Memory.write_of_some h (by rw [byteOf, hdata]) m) _⟩
  range h hdata := bind_of_error (Memory.write_of_range h hdata m) _
  address hr h := answer_of_address_none hr h m

/-- **A memory is a ring of bytes with a trace.**  After any requests, answered or refused, reading
or peeking gives the byte that was stored last at that address, by a write, by an item, or among the
values of a load that were placed, and otherwise the byte that was there at the start.  Taking the
log gives the reads and writes that were made since it was taken last, in order, each with the byte
that was current when it was made, and nothing else. -/
theorem answers_of_history (files : Files) (start : Memory) (before : List MemoryRequest) :
    Serves files (after files start before) (current files start before)
      ∧ (.takeLog ∉ before →
          answer files .takeLog (after files start before)
            = .ok (.log (start.log ++ accesses files start [] before))
                { after files start before with log := [] })
      ∧ ∀ front back, before = front ++ .takeLog :: back → .takeLog ∉ back →
          answer files .takeLog (after files start before)
            = .ok (.log (accesses files start (front ++ [.takeLog]) back))
                { after files start before with log := [] } := by
  have htake (m : Memory) : answer files .takeLog m = .ok (.log m.log) { m with log := [] } := rfl
  refine ⟨?_, ?_, ?_⟩
  · have hserves := serves files (after files start before)
    rwa [funext (byteAt_after files start before)] at hserves
  · intro hbefore
    have hlog := log_after files start [] hbefore
    rw [List.nil_append] at hlog
    rw [htake, hlog]
    rfl
  · intro front back hsplit hback
    have hlog := log_after files start (front ++ [.takeLog]) hback
    rw [log_after_takeLog, List.nil_append, ← List.append_cons, ← hsplit] at hlog
    rw [htake, hlog]

/-- Data that is no byte is not always refused by the memory: the least integer that is too long to
be written is refused for its length. -/
theorem long_data_refused_for_length :
    answer [] (.write (.int 0) (.int Text.decimalBound)) .zero = .error .longInteger .zero
      ∧ ¬ Fault.IsAccess .longInteger := by
  have haddress : (Datum.int 0).int? = some 0 := rfl
  have hrefused := (serves [] .zero).range haddress Datum.within?_decimalBound
  rw [Fault.showing_of_not_isShowable Datum.isShowable_decimalBound] at hrefused
  exact ⟨hrefused, Fault.not_isAccess_longInteger⟩

/-- One address by three names: a truth value is written as given, and an item leaves no trace. -/
example : accesses [] Memory.zero []
      [.write (.int (-65536)) (.bool true), .put (.int 65536) (.int 8), .read (.int 0)]
    = [.write 0 (.bool true) 0, .read 0 8] := by
  rfl

end MemoryRequest

end Emu8080
