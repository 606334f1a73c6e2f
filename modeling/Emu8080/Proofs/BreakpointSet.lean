/-
# Emu8080.Proofs.BreakpointSet -- a list of breakpoints is a set

Breakpoints are compared part by part, so being the same is an equivalence on
those a host can make.  A list that only additions and removals have made holds
none of them twice, and which ones it holds is known from the edits alone: those
whose latest edit was an addition (`IsSetOf.latest`), each in the place of the
addition that opened it (`Opens`), the first since its last removal.

One edit keeps this (`IsSetOf.apply`), and a history of edits follows from its
end (`isSetOf_edits`).
-/
import Emu8080.Proofs.Equality
import Emu8080.Proofs.Sequence
import Emu8080.Session
import Mathlib.Data.List.Induction

namespace Emu8080

set_option autoImplicit false

namespace Breakpoint

/-- Every part is a value that a host can make. -/
structure IsProper (b : Breakpoint) : Prop where
  value : b.value.IsProper
  address : b.address.IsProper
  register : b.register.IsProper
  enabled : b.enabled.IsProper

variable {x y z : Breakpoint}

theorem agrees_iff :
    x.agrees y = true ↔ x.kind = y.kind ∧ x.value.same y.value = true
      ∧ x.address.same y.address = true ∧ x.register.same y.register = true
      ∧ x.enabled.same y.enabled = true := by
  have hkind : (x.kind == y.kind) = true ↔ x.kind = y.kind := by
    cases x.kind <;> cases y.kind <;> decide
  simp only [agrees, Bool.and_eq_true, hkind, and_assoc]

theorem agrees_refl (x : Breakpoint) : x.agrees x = true :=
  agrees_iff.2 ⟨rfl, Datum.same_refl _, Datum.same_refl _, Datum.same_refl _, Datum.same_refl _⟩

theorem agrees_symm (hx : x.IsProper) (h : x.agrees y = true) : y.agrees x = true := by
  obtain ⟨hkind, hvalue, haddress, hregister, henabled⟩ := agrees_iff.1 h
  exact agrees_iff.2 ⟨hkind.symm, Datum.same_symm hx.value hvalue,
    Datum.same_symm hx.address haddress, Datum.same_symm hx.register hregister,
    Datum.same_symm hx.enabled henabled⟩

theorem agrees_comm (hx : x.IsProper) (hy : y.IsProper) : x.agrees y = y.agrees x :=
  Bool.eq_iff_iff.2 ⟨agrees_symm hx, agrees_symm hy⟩

theorem agrees_trans (hxy : x.agrees y = true) (hyz : y.agrees z = true) : x.agrees z = true := by
  obtain ⟨hkind, hvalue, haddress, hregister, henabled⟩ := agrees_iff.1 hxy
  obtain ⟨hkind', hvalue', haddress', hregister', henabled'⟩ := agrees_iff.1 hyz
  exact agrees_iff.2 ⟨hkind.trans hkind', Datum.same_trans hvalue hvalue',
    Datum.same_trans haddress haddress', Datum.same_trans hregister hregister',
    Datum.same_trans henabled henabled'⟩

variable {b : Breakpoint} {list : List Breakpoint}

theorem insert_of_mem (h : ∃ x ∈ list, x.agrees b = true) : b.insert list = list :=
  if_pos (List.any_eq_true.2 h)

theorem insert_of_absent (h : ¬ ∃ x ∈ list, x.agrees b = true) : b.insert list = list ++ [b] :=
  if_neg fun hany => h (List.any_eq_true.1 hany)

theorem erase_of_absent (h : ∀ x ∈ list, x.agrees b = false) : b.erase list = list :=
  List.eraseP_of_forall_not fun x hx => Bool.eq_false_iff.1 (h x hx)

/-- From a list without doubles the removed condition goes altogether. -/
theorem erase_eq_filter (hproper : ∀ x ∈ list, x.IsProper)
    (hdistinct : list.Pairwise fun x y => x.agrees y = false) :
    b.erase list = list.filter fun x => !x.agrees b := by
  induction list with
  | nil => rfl
  | cons x rest ih =>
    obtain ⟨hx, hrest⟩ := List.pairwise_cons.1 hdistinct
    obtain ⟨-, hproper'⟩ := List.forall_mem_cons.1 hproper
    cases hxb : x.agrees b with
    | false =>
      have ih := ih hproper' hrest
      rw [erase] at ih ⊢
      rw [List.eraseP_cons_of_neg (by rw [hxb]; exact Bool.false_ne_true), ih,
        List.filter_cons_of_pos (by rw [hxb]; rfl)]
    | true =>
      rw [erase, List.eraseP_cons_of_pos (p := fun x : Breakpoint => x.agrees b) hxb,
        List.filter_cons_of_neg (by rw [hxb]; decide)]
      refine (List.filter_eq_self.2 fun y hy => ?_).symm
      rw [Bool.not_eq_true', Bool.eq_false_iff]
      intro hyb
      have hxy := agrees_trans hxb (agrees_symm (hproper' y hy) hyb)
      exact absurd hxy (Bool.eq_false_iff.1 (hx y hy))

/-- Where what agrees with `b` is taken out, what remains is what does not. -/
theorem exists_agrees_filter (hlist : ∀ x ∈ list, x.IsProper) (hb : b.IsProper) :
    (∃ x ∈ list.filter fun x => !x.agrees b, x.agrees y = true)
      ↔ b.agrees y = false ∧ ∃ x ∈ list, x.agrees y = true := by
  constructor
  · rintro ⟨x, hx, hxy⟩
    obtain ⟨hx, hxb⟩ := List.mem_filter.1 hx
    refine ⟨Bool.eq_false_iff.2 fun hby => ?_, x, hx, hxy⟩
    rw [agrees_trans hxy (agrees_symm hb hby)] at hxb
    exact Bool.false_ne_true hxb
  · rintro ⟨hby, x, hx, hxy⟩
    refine ⟨x, List.mem_filter.2 ⟨hx, ?_⟩, hxy⟩
    rw [Bool.not_eq_true', Bool.eq_false_iff]
    intro hxb
    have hby' := agrees_trans (agrees_symm (hlist x hx) hxb) hxy
    exact Bool.false_ne_true (hby.symm.trans hby')

end Breakpoint

/-! ## Edits -/

/-- An edit of a list of breakpoints. -/
inductive Edit
  | add (b : Breakpoint)
  | remove (b : Breakpoint)

namespace Edit

/-- The breakpoint that an edit is about. -/
def condition : Edit → Breakpoint
  | .add b | .remove b => b

/-- How a host asks for it. -/
def request : Edit → Request
  | .add b => .addBreakpoint b
  | .remove b => .removeBreakpoint b

def apply : Edit → List Breakpoint → List Breakpoint
  | .add b, list => b.insert list
  | .remove b, list => b.erase list

end Edit

namespace Session

/-- An edit is answered with the number of breakpoints, and changes nothing but their list. -/
theorem answer_edit (s : Session) (e : Edit) :
    let list := e.apply s.debugger.breakpoints
    e.request.answer s
      = .ok (.number list.length)
          { s with debugger := { s.debugger with breakpoints := list } } := by
  cases e <;> rfl

/-- Removing what is not there changes nothing. -/
theorem answer_remove_absent {s : Session} {b : Breakpoint}
    (h : ∀ x ∈ s.debugger.breakpoints, x.agrees b = false) :
    (Request.removeBreakpoint b).answer s = .ok (.number s.debugger.breakpoints.length) s := by
  have hanswer := s.answer_edit (.remove b)
  rw [Edit.apply, Breakpoint.erase_of_absent h] at hanswer
  exact hanswer

/-- A session after edits. -/
def edited (s : Session) (edits : List Edit) : Session :=
  edits.foldl (fun s e => e.request.answer.final s) s

theorem breakpoints_edited (s : Session) (edits : List Edit) :
    (s.edited edits).debugger.breakpoints
      = edits.foldl (fun list e => e.apply list) s.debugger.breakpoints := by
  induction edits generalizing s with
  | nil => rfl
  | cons e rest ih =>
    have hfirst := Action.final_of_ok (s.answer_edit e)
    rw [edited, List.foldl_cons, hfirst]
    exact ih _

end Session

/-- The latest edit that is about a breakpoint. -/
def latest? (edits : List Edit) (b : Breakpoint) : Option Edit :=
  edits.reverse.find? fun e => e.condition.agrees b

/-- Edit number `i` opened a breakpoint that still stands: it added it, no later one removed it,
and whatever had added it before was undone before. -/
structure Opens (edits : List Edit) (i : Nat) (b : Breakpoint) : Prop where
  add : edits[i]? = some (.add b)
  stays : ∀ c, .remove c ∈ edits.drop (i + 1) → c.agrees b = false
  first : ∀ j c, j < i → edits[j]? = some (.add c) → c.agrees b = true →
    ∃ c', .remove c' ∈ (edits.take i).drop (j + 1) ∧ c'.agrees b = true

/-- The list is the set that the edits make: it holds nothing twice, it holds what was added and
not removed after that, and it does so in the order of the additions that opened them. -/
structure IsSetOf (edits : List Edit) (list : List Breakpoint) : Prop where
  distinct : list.Pairwise fun x y => x.agrees y = false
  latest : ∀ b, (∃ x ∈ list, x.agrees b = true) ↔ ∃ c, latest? edits b = some (.add c)
  order : ∃ entries : List (Nat × Breakpoint), entries.map Prod.snd = list
    ∧ (entries.Pairwise fun e e' => e.1 < e'.1) ∧ ∀ i b, (i, b) ∈ entries ↔ Opens edits i b

section Edits

variable {edits : List Edit} {list : List Breakpoint} {e : Edit} {b x : Breakpoint} {i : Nat}

theorem latest?_append_singleton (edits : List Edit) (e : Edit) (b : Breakpoint) :
    latest? (edits ++ [e]) b = if e.condition.agrees b then some e else latest? edits b := by
  rw [latest?, List.reverse_append, List.reverse_singleton, List.singleton_append, List.find?_cons]
  cases e.condition.agrees b <;> rfl

/-- After an addition whose breakpoint is not there any more a removal came. -/
theorem remove_mem_of_latest? {front back : List Edit} {c : Breakpoint} (hc : c.agrees b = true)
    (h : ¬ ∃ c', latest? (front ++ .add c :: back) b = some (.add c')) :
    ∃ c', .remove c' ∈ back ∧ c'.agrees b = true := by
  have hpos : (Edit.add c).condition.agrees b = true := hc
  have hsplit : latest? (front ++ .add c :: back) b = (latest? back b).or (some (.add c)) := by
    rw [latest?, List.reverse_append, List.reverse_cons, List.append_assoc, List.find?_append,
      List.singleton_append,
      List.find?_cons_of_pos (p := fun e : Edit => e.condition.agrees b) hpos]
    rfl
  rw [hsplit] at h
  cases hback : latest? back b with
  | none =>
    rw [hback] at h
    exact absurd ⟨c, rfl⟩ h
  | some e =>
    rw [hback] at h
    cases e with
    | add c' => exact absurd ⟨c', rfl⟩ h
    | remove c' =>
      have hmem := List.mem_reverse.1 (List.mem_of_find?_eq_some hback)
      exact ⟨c', hmem, List.find?_some (p := fun e : Edit => e.condition.agrees b) hback⟩

theorem Opens.lt_length (h : Opens edits i b) : i < edits.length :=
  (List.getElem?_eq_some_iff.1 h.add).1

/-- An addition that stands goes on standing unless it is removed. -/
theorem opens_append_singleton (hi : i < edits.length) :
    Opens (edits ++ [e]) i b
      ↔ Opens edits i b ∧ ∀ c, e = .remove c → c.agrees b = false := by
  have hdrop : (edits ++ [e]).drop (i + 1) = edits.drop (i + 1) ++ [e] :=
    List.drop_append_of_le_length hi
  have htake : (edits ++ [e]).take i = edits.take i :=
    List.take_append_of_le_length (Nat.le_of_lt hi)
  have hget {j : Nat} (hj : j ≤ i) : (edits ++ [e])[j]? = edits[j]? :=
    List.getElem?_append_left (Nat.lt_of_le_of_lt hj hi)
  constructor
  · rintro ⟨hadd, hstays, hfirst⟩
    rw [hdrop] at hstays
    rw [hget (Nat.le_refl i)] at hadd
    refine ⟨⟨hadd, ?_, ?_⟩, ?_⟩
    · exact fun c hc => hstays c (List.mem_append_left _ hc)
    · intro j c hj hc hagrees
      rw [← htake]
      exact hfirst j c hj ((hget (Nat.le_of_lt hj)).trans hc) hagrees
    · rintro c rfl
      exact hstays c (List.mem_append_right _ List.mem_cons_self)
  · rintro ⟨⟨hadd, hstays, hfirst⟩, hlast⟩
    refine ⟨(hget (Nat.le_refl i)).trans hadd, ?_, ?_⟩
    · intro c hc
      rw [hdrop] at hc
      rcases List.mem_append.1 hc with hc | hc
      · exact hstays c hc
      · exact hlast c (List.mem_singleton.1 hc).symm
    · intro j c hj hc hagrees
      rw [hget (Nat.le_of_lt hj)] at hc
      rw [htake]
      exact hfirst j c hj hc hagrees

/-- The last edit opens a breakpoint if it adds one that was not there. -/
theorem opens_last (h : ¬ ∃ c, latest? edits b = some (.add c)) :
    Opens (edits ++ [.add b]) edits.length b where
  add := by rw [List.getElem?_append_right (Nat.le_refl _), Nat.sub_self]; rfl
  stays c hc := by
    have hlength : (edits ++ [Edit.add b]).length = edits.length + 1 := by
      rw [List.length_append, List.length_singleton]
    rw [List.drop_eq_nil_of_le (Nat.le_of_eq hlength)] at hc
    exact absurd hc List.not_mem_nil
  first j c hj hc hagrees := by
    rw [List.getElem?_append_left hj] at hc
    obtain ⟨hj, hget⟩ := List.getElem?_eq_some_iff.1 hc
    have hsplit : edits = edits.take j ++ .add c :: edits.drop (j + 1) := by
      rw [← hget, ← List.drop_eq_getElem_cons hj, List.take_append_drop]
    rw [hsplit] at h
    rw [List.take_left']
    · exact remove_mem_of_latest? hagrees h
    · rfl

theorem IsSetOf.proper (h : IsSetOf edits list) (hproper : ∀ e ∈ edits, e.condition.IsProper) :
    ∀ x ∈ list, x.IsProper := by
  obtain ⟨entries, rfl, -, hentries⟩ := h.order
  intro x hx
  obtain ⟨⟨i, b⟩, hentry, rfl⟩ := List.mem_map.1 hx
  exact hproper _ (List.mem_of_getElem? ((hentries i b).1 hentry).add)

theorem IsSetOf.nil : IsSetOf [] [] where
  distinct := .nil
  latest b := by simp [latest?]
  order := by
    refine ⟨[], rfl, .nil, fun i b => ⟨fun h => absurd h List.not_mem_nil, fun h => ?_⟩⟩
    exact absurd h.lt_length (Nat.not_lt_zero i)

/-- Only an addition opens something at the end. -/
theorem Opens.lt_or_last (h : Opens (edits ++ [e]) i x) :
    i < edits.length ∨ (i = edits.length ∧ e = .add x) := by
  have hi := h.lt_length
  rw [List.length_append, List.length_singleton, Nat.lt_succ_iff_lt_or_eq] at hi
  rcases hi with hi | rfl
  · exact .inl hi
  · have hadd := h.add
    rw [List.getElem?_append_right (Nat.le_refl _), Nat.sub_self] at hadd
    exact .inr ⟨rfl, Option.some.inj hadd⟩

/-- What an addition opens is what was open before, or itself. -/
theorem Opens.of_append_add (h : Opens (edits ++ [.add b]) i x) :
    Opens edits i x ∨ (i = edits.length ∧ x = b) := by
  rcases h.lt_or_last with hi | ⟨hi, hadd⟩
  · exact .inl ((opens_append_singleton hi).1 h).1
  · cases hadd
    exact .inr ⟨hi, rfl⟩

/-- A removal opens nothing, and closes what it agrees with. -/
theorem opens_append_remove :
    Opens (edits ++ [.remove b]) i x ↔ Opens edits i x ∧ b.agrees x = false := by
  constructor
  · intro h
    rcases h.lt_or_last with hi | ⟨-, hadd⟩
    · obtain ⟨hopens, hlast⟩ := (opens_append_singleton hi).1 h
      exact ⟨hopens, hlast b rfl⟩
    · cases hadd
  · rintro ⟨hopens, hagrees⟩
    refine (opens_append_singleton hopens.lt_length).2 ⟨hopens, ?_⟩
    rintro c ⟨rfl⟩
    exact hagrees

/-- Adding what is there changes nothing but the history. -/
theorem IsSetOf.add_present (h : IsSetOf edits list) (hproper : ∀ e ∈ edits, e.condition.IsProper)
    (hb : ∃ x ∈ list, x.agrees b = true) : IsSetOf (edits ++ [.add b]) list where
  distinct := h.distinct
  latest c := by
    rw [latest?_append_singleton, h.latest]
    cases hbc : (Edit.add b).condition.agrees c with
    | false => rfl
    | true =>
      obtain ⟨x, hx, hxb⟩ := hb
      have hthere := (h.latest c).1 ⟨x, hx, Breakpoint.agrees_trans hxb hbc⟩
      exact ⟨fun _ => ⟨b, rfl⟩, fun _ => hthere⟩
  order := by
    obtain ⟨x, hx, hxb⟩ := hb
    have hxproper := h.proper hproper x hx
    obtain ⟨entries, rfl, hsorted, hentries⟩ := h.order
    obtain ⟨⟨j, x⟩, hentry, rfl⟩ := List.mem_map.1 hx
    have hopened : Opens edits j x := (hentries j x).1 hentry
    refine ⟨entries, rfl, hsorted, fun i y => ?_⟩
    rw [hentries]
    constructor
    · intro hopens
      exact (opens_append_singleton hopens.lt_length).2 ⟨hopens, nofun⟩
    intro hopens
    rcases hopens.of_append_add with hopens | ⟨rfl, rfl⟩
    · exact hopens
    -- the last edit cannot open what another one holds open
    have hadd : (edits ++ [.add y])[j]? = some (.add x) :=
      (List.getElem?_append_left hopened.lt_length).trans hopened.add
    obtain ⟨c, hc, hcy⟩ := hopens.first j x hopened.lt_length hadd hxb
    rw [List.take_left] at hc
    have hcx := Breakpoint.agrees_trans hcy (Breakpoint.agrees_symm hxproper hxb)
    rw [hopened.stays c hc] at hcx
    cases hcx

/-- Adding what is not there puts it at the end. -/
theorem IsSetOf.add_absent (h : IsSetOf edits list)
    (hb : ¬ ∃ x ∈ list, x.agrees b = true) : IsSetOf (edits ++ [.add b]) (list ++ [b]) where
  distinct := by
    refine List.pairwise_append.2 ⟨h.distinct, List.pairwise_singleton _ _, fun x hx y hy => ?_⟩
    rw [List.mem_singleton.1 hy, Bool.eq_false_iff]
    exact fun hxb => hb ⟨x, hx, hxb⟩
  latest c := by
    rw [latest?_append_singleton]
    cases hbc : (Edit.add b).condition.agrees c with
    | false =>
      rw [if_neg Bool.false_ne_true, ← h.latest]
      constructor
      · rintro ⟨x, hx, hxc⟩
        rcases List.mem_append.1 hx with hx | hx
        · exact ⟨x, hx, hxc⟩
        · rw [List.mem_singleton.1 hx] at hxc
          exact absurd (hbc.symm.trans hxc) Bool.false_ne_true
      · rintro ⟨x, hx, hxc⟩
        exact ⟨x, List.mem_append_left _ hx, hxc⟩
    | true =>
      rw [if_pos rfl]
      exact iff_of_true ⟨b, List.mem_append_right _ List.mem_cons_self, hbc⟩ ⟨b, rfl⟩
  order := by
    obtain ⟨entries, hlist, hsorted, hentries⟩ := h.order
    refine ⟨entries ++ [(edits.length, b)], by rw [List.map_append, hlist]; rfl, ?_, ?_⟩
    · refine List.pairwise_append.2 ⟨hsorted, List.pairwise_singleton _ _, fun e he e' he' => ?_⟩
      rw [List.mem_singleton.1 he']
      exact ((hentries e.1 e.2).1 he).lt_length
    · intro i y
      rw [List.mem_append, hentries, List.mem_singleton, Prod.mk.injEq]
      constructor
      · rintro (hopens | ⟨rfl, rfl⟩)
        · exact (opens_append_singleton hopens.lt_length).2 ⟨hopens, nofun⟩
        · exact opens_last fun hlatest => hb ((h.latest y).2 hlatest)
      · exact Opens.of_append_add

/-- A removal takes out what agrees with it. -/
theorem IsSetOf.remove (h : IsSetOf edits list) (hproper : ∀ e ∈ edits, e.condition.IsProper)
    (hb : b.IsProper) : IsSetOf (edits ++ [.remove b]) (b.erase list) := by
  have hlist := h.proper hproper
  rw [Breakpoint.erase_eq_filter hlist h.distinct]
  refine { distinct := h.distinct.filter _, latest := fun c => ?latest, order := ?order }
  case latest =>
    rw [latest?_append_singleton, Breakpoint.exists_agrees_filter hlist hb, h.latest]
    cases hbc : (Edit.remove b).condition.agrees c with
    | false =>
      rw [if_neg Bool.false_ne_true]
      exact and_iff_right hbc
    | true =>
      rw [if_pos rfl]
      exact iff_of_false (fun hc => Bool.false_ne_true (hc.1.symm.trans hbc)) nofun
  case order =>
    obtain ⟨entries, rfl, hsorted, hentries⟩ := h.order
    refine ⟨entries.filter fun e => !e.2.agrees b, ?_, hsorted.filter _, fun i y => ?_⟩
    · rw [List.filter_map]
      rfl
    · rw [List.mem_filter, hentries, opens_append_remove, Bool.not_eq_true']
      refine and_congr_right fun hopens => ?_
      have hy : y.IsProper := hproper _ (List.mem_of_getElem? hopens.add)
      rw [Breakpoint.agrees_comm hb hy]

/-- An edit keeps a list the set that its edits make. -/
theorem IsSetOf.apply (h : IsSetOf edits list) (hproper : ∀ e ∈ edits, e.condition.IsProper)
    (he : e.condition.IsProper) : IsSetOf (edits ++ [e]) (e.apply list) := by
  cases e with
  | add b =>
    by_cases hb : ∃ x ∈ list, x.agrees b = true
    · rw [Edit.apply, Breakpoint.insert_of_mem hb]
      exact h.add_present hproper hb
    · rw [Edit.apply, Breakpoint.insert_of_absent hb]
      exact h.add_absent hb
  | remove b => exact h.remove hproper he

/-- The run lemma: edits of an empty list make the set that they say. -/
theorem isSetOf_edits (edits : List Edit) (hproper : ∀ e ∈ edits, e.condition.IsProper) :
    IsSetOf edits (edits.foldl (fun list e => e.apply list) []) := by
  induction edits using List.reverseRecOn with
  | nil => exact .nil
  | append_singleton edits e ih =>
    obtain ⟨hbefore, he⟩ := List.forall_mem_append.1 hproper
    rw [List.foldl_concat]
    exact (ih hbefore).apply hbefore (he e List.mem_cons_self)

end Edits

end Emu8080
