/-
# Emu8080.Proofs.Equality -- values that are the same

Plain values are the same if they denote the same; lists and mappings are if
their parts are, item by item or entry by entry in any order.  So `Datum.same` is
reflexive and transitive by induction on the values (`Datum.induct`).

It is symmetric for values that a host can make (`Datum.IsProper`).  Comparing
mappings goes through the entries of the first one only, and it is because no two
keys are the same that as many entries are all of them (`covers_of_injects`).

What is asked of a value elsewhere does not tell values apart that are the same:
whether it counts as true, which integer it is, and what it agrees with.
-/
import Emu8080.Proofs.Scalar
import Mathlib.Data.List.Forall2

namespace Emu8080.Datum

set_option autoImplicit false

variable {x y z : Datum} {a : Scalar}

/-! ## Values with parts -/

/-- What holds of plain values, and of lists and mappings if it holds of their parts, holds of all
values. -/
theorem induct {P : Datum → Prop} (plain : ∀ d, d.canBeKey = true → P d)
    (list : ∀ items, (∀ d ∈ items, P d) → P (.list items))
    (map : ∀ entries, (∀ e ∈ entries, P e.1 ∧ P e.2) → P (.map entries)) (d : Datum) : P d := by
  match d with
  | .null | .bool _ | .int _ | .float _ | .str _ => exact plain _ rfl
  | .list items => exact list items fun d hd => induct plain list map d
  | .map entries =>
    exact map entries fun e he => ⟨induct plain list map e.1, induct plain list map e.2⟩
termination_by sizeOf d
decreasing_by
  · have hsize := List.sizeOf_lt_of_mem hd
    simp only [Datum.list.sizeOf_spec]
    omega
  · have hsize := List.sizeOf_lt_of_mem he
    cases e
    simp only [Datum.map.sizeOf_spec, Prod.mk.sizeOf_spec] at hsize ⊢
    omega
  · have hsize := List.sizeOf_lt_of_mem he
    cases e
    simp only [Datum.map.sizeOf_spec, Prod.mk.sizeOf_spec] at hsize ⊢
    omega

theorem scalar?_of_canBeKey (h : x.canBeKey = true) : ∃ a, x.scalar? = some a := by
  cases x with
  | null | bool b | int n | float w | str s => exact ⟨_, rfl⟩
  | list items | map entries => exact nomatch h

variable {items others : List Datum} {entries : List (Datum × Datum)}

/-- Lists are the same as lists of the same items in order. -/
theorem list_same_iff :
    (Datum.list items).same y = true
      ↔ ∃ others, y = .list others ∧ List.Forall₂ (fun d e => d.same e = true) items others := by
  have hitems (items others : List Datum) : sameItems items others = true
      ↔ List.Forall₂ (fun d e => d.same e = true) items others := by
    induction items generalizing others with
    | nil => cases others <;> simp [sameItems]
    | cons d rest ih =>
      cases others with
      | nil => simp [sameItems]
      | cons e more => rw [sameItems, Bool.and_eq_true, List.forall₂_cons, ih, same]
  cases y with
  | list others => simp [same, isNaN, agrees, hitems]
  | null | bool b | int n | float w | str s | map entries => simp [same, isNaN, agrees]

/-- Mappings are the same as mappings with as many entries that hold each of theirs. -/
theorem map_same_iff :
    (Datum.map entries).same y = true
      ↔ ∃ others, y = .map others ∧ entries.length = others.length
        ∧ ∀ e ∈ entries, ∃ e' ∈ others, e.1.same e'.1 = true ∧ e.2.same e'.2 = true := by
  have hentries (entries others : List (Datum × Datum)) : sameEntries entries others = true
      ↔ ∀ e ∈ entries, ∃ e' ∈ others, e.1.same e'.1 = true ∧ e.2.same e'.2 = true := by
    induction entries with
    | nil => simp [sameEntries]
    | cons e rest ih =>
      rw [sameEntries, Bool.and_eq_true, ih, List.forall_mem_cons, List.any_eq_true]
      simp only [Bool.and_eq_true, same]
  cases y with
  | map others => simp [same, isNaN, agrees, hentries]
  | null | bool b | int n | float w | str s | list items => simp [same, isNaN, agrees]

/-! ## The same is an equivalence -/

theorem same_refl (x : Datum) : x.same x = true := by
  induction x using induct with
  | plain x hx =>
    obtain ⟨a, ha⟩ := scalar?_of_canBeKey hx
    exact (same_iff ha).2 ha
  | list items ih =>
    refine list_same_iff.2 ⟨items, rfl, ?_⟩
    exact List.forall₂_same.2 ih
  | map entries ih =>
    exact map_same_iff.2 ⟨entries, rfl, rfl, fun e he => ⟨e, he, ih e he⟩⟩

theorem forall₂_same_trans {items others more : List Datum}
    (ih : ∀ d ∈ items, ∀ e f, d.same e = true → e.same f = true → d.same f = true)
    (h : List.Forall₂ (fun d e => d.same e = true) items others)
    (h' : List.Forall₂ (fun d e => d.same e = true) others more) :
    List.Forall₂ (fun d e => d.same e = true) items more := by
  induction h generalizing more with
  | nil => exact h'
  | cons hd hrest ihrest =>
    cases h' with
    | cons hd' hrest' =>
      refine .cons (ih _ List.mem_cons_self _ _ hd hd') ?_
      exact ihrest (fun d hd => ih d (List.mem_cons_of_mem _ hd)) hrest'

theorem same_trans (hxy : x.same y = true) (hyz : y.same z = true) : x.same z = true := by
  induction x using induct generalizing y z with
  | plain x hx =>
    obtain ⟨a, ha⟩ := scalar?_of_canBeKey hx
    exact (same_iff ha).2 ((same_iff ((same_iff ha).1 hxy)).1 hyz)
  | list items ih =>
    obtain ⟨others, rfl, hitems⟩ := list_same_iff.1 hxy
    obtain ⟨more, rfl, hothers⟩ := list_same_iff.1 hyz
    refine list_same_iff.2 ⟨more, rfl, ?_⟩
    exact forall₂_same_trans (fun d hd e f => ih d hd) hitems hothers
  | map entries ih =>
    obtain ⟨others, rfl, hlength, hentries⟩ := map_same_iff.1 hxy
    obtain ⟨more, rfl, hlength', hothers⟩ := map_same_iff.1 hyz
    refine map_same_iff.2 ⟨more, rfl, hlength.trans hlength', fun e he => ?_⟩
    obtain ⟨e', he', hkey, hvalue⟩ := hentries e he
    obtain ⟨e'', he'', hkey', hvalue'⟩ := hothers e' he'
    exact ⟨e'', he'', (ih e he).1 hkey hkey', (ih e he).2 hvalue hvalue'⟩

/-- A value that a host can make: its mappings, and those among its parts, have plain keys, no two
of them the same. -/
inductive IsProper : Datum → Prop
  | plain {d : Datum} (h : d.canBeKey = true) : IsProper d
  | list {items : List Datum} (h : ∀ d ∈ items, IsProper d) : IsProper (.list items)
  | map {entries : List (Datum × Datum)} (hkeys : ∀ e ∈ entries, e.1.canBeKey = true)
      (hdistinct : entries.Pairwise fun e e' => e.1.same e'.1 = false)
      (hvalues : ∀ e ∈ entries, IsProper e.2) : IsProper (.map entries)

/-- A relation that takes a list into one of the same length, with no two of its items to the same
place, covers the other list. -/
theorem covers_of_injects {α β : Type} {R : α → β → Prop} {xs : List α} {ys : List β}
    (hlength : xs.length = ys.length) (htotal : ∀ a ∈ xs, ∃ b ∈ ys, R a b)
    (hinjects : xs.Pairwise fun a a' => ∀ b ∈ ys, R a b → ¬ R a' b) :
    ∀ b ∈ ys, ∃ a ∈ xs, R a b := by
  induction xs generalizing ys with
  | nil =>
    rw [List.eq_nil_of_length_eq_zero hlength.symm]
    exact fun b hb => absurd hb List.not_mem_nil
  | cons a rest ih =>
    obtain ⟨b, hb, hab⟩ := htotal a List.mem_cons_self
    obtain ⟨front, back, rfl⟩ := List.append_of_mem hb
    obtain ⟨hfirst, hrest⟩ := List.pairwise_cons.1 hinjects
    have hmem {c : β} (hc : c ∈ front ++ back) : c ∈ front ++ b :: back := by
      rcases List.mem_append.1 hc with hc | hc
      · exact List.mem_append_left _ hc
      · exact List.mem_append_right _ (List.mem_cons_of_mem b hc)
    -- the place of `a` is taken, so the rest goes into what remains
    have hothers : ∀ a' ∈ rest, ∃ c ∈ front ++ back, R a' c := by
      intro a' ha'
      obtain ⟨c, hc, hac⟩ := htotal a' (List.mem_cons_of_mem a ha')
      rcases List.mem_append.1 hc with hc | hc
      · exact ⟨c, List.mem_append_left _ hc, hac⟩
      · rcases List.mem_cons.1 hc with rfl | hc
        · exact absurd hac (hfirst a' ha' c hb hab)
        · exact ⟨c, List.mem_append_right _ hc, hac⟩
    have hshorter : rest.length = (front ++ back).length := by
      simp only [List.length_append, List.length_cons] at hlength ⊢
      omega
    have hcovered := ih hshorter hothers (hrest.imp fun h c hc => h c (hmem hc))
    intro c hc
    by_cases hcb : c ∈ front ++ back
    · obtain ⟨a', ha', hac⟩ := hcovered c hcb
      exact ⟨a', List.mem_cons_of_mem a ha', hac⟩
    · have hcb' : c = b := by
        rcases List.mem_append.1 hc with hc | hc
        · exact absurd (List.mem_append_left _ hc) hcb
        · exact (List.mem_cons.1 hc).resolve_right fun hc => hcb (List.mem_append_right _ hc)
      rw [hcb']
      exact ⟨a, List.mem_cons_self, hab⟩

theorem plain_same_symm (hx : x.canBeKey = true) (h : x.same y = true) : y.same x = true := by
  obtain ⟨a, ha⟩ := scalar?_of_canBeKey hx
  exact (same_iff ((same_iff ha).1 h)).2 ha

theorem forall₂_same_symm {items others : List Datum}
    (ih : ∀ d ∈ items, ∀ e, d.same e = true → e.same d = true)
    (h : List.Forall₂ (fun d e => d.same e = true) items others) :
    List.Forall₂ (fun d e => d.same e = true) others items := by
  induction h with
  | nil => exact .nil
  | cons hd hrest ihrest =>
    refine .cons (ih _ List.mem_cons_self _ hd) ?_
    exact ihrest fun d hd => ih d (List.mem_cons_of_mem _ hd)

/-- What is the same is the same the other way round, for values that a host can make. -/
theorem same_symm (hx : x.IsProper) (h : x.same y = true) : y.same x = true := by
  induction hx generalizing y with
  | plain hx => exact plain_same_symm hx h
  | list hitems ih =>
    obtain ⟨others, rfl, hsame⟩ := list_same_iff.1 h
    exact list_same_iff.2 ⟨_, rfl, forall₂_same_symm (fun d hd e => ih d hd) hsame⟩
  | @map entries hkeys hdistinct hvalues ih =>
    obtain ⟨others, rfl, hlength, hentries⟩ := map_same_iff.1 h
    refine map_same_iff.2 ⟨entries, rfl, hlength.symm, ?_⟩
    have hcovers := covers_of_injects hlength hentries ?_
    · intro e' he'
      obtain ⟨e, he, hkey, hvalue⟩ := hcovers e' he'
      exact ⟨e, he, plain_same_symm (hkeys e he) hkey, ih e he hvalue⟩
    · refine hdistinct.imp_of_mem fun {e e'} he he' hkeys' f hf hef hef' => ?_
      have hback := plain_same_symm (hkeys e' he') hef'.1
      exact absurd (same_trans hef.1 hback) (Bool.eq_false_iff.1 hkeys')

/-! ## What equal values share -/

/-- Equal values denote the same. -/
theorem scalar?_congr (h : x.same y = true) : x.scalar? = y.scalar? := by
  cases hx : x.scalar? with
  | some a => exact ((same_iff hx).1 h).symm
  | none =>
    cases x with
    | list items =>
      obtain ⟨others, rfl, -⟩ := list_same_iff.1 h
      rfl
    | map entries =>
      obtain ⟨others, rfl, -⟩ := map_same_iff.1 h
      rfl
    | null | bool b | int n | float w | str s => exact nomatch hx

theorem agreesInt_congr (h : x.same y = true) (n : Int) : x.agreesInt n = y.agreesInt n := by
  rw [Bool.eq_iff_iff, agreesInt_iff, agreesInt_iff, scalar?_congr h]

theorem truthy_of_scalar? (h : x.scalar? = some a) : x.truthy = a.truthy := by
  have hunit : (Binary64.unit : Int) ≠ 0 :=
    Int.natCast_ne_zero.2 (Nat.ne_of_gt Binary64.unit_pos)
  have hnumber (n : Int) : (Scalar.number (n * Binary64.unit)).truthy = (n != 0) := by
    rw [Scalar.truthy, Bool.eq_iff_iff]
    simp only [bne_iff_ne, ne_eq, Int.mul_eq_zero, hunit, or_false]
  cases x with
  | int n =>
    cases h
    exact (hnumber n).symm
  | bool b =>
    cases h
    rw [hnumber]
    cases b <;> rfl
  | float w =>
    cases h
    exact (Binary64.truthy_scalar w).symm
  | null | str s =>
    cases h
    rfl
  | list items | map entries => cases h

theorem truthy_congr (h : x.same y = true) : x.truthy = y.truthy := by
  cases x with
  | list items =>
    obtain ⟨others, rfl, hitems⟩ := list_same_iff.1 h
    cases hitems <;> rfl
  | map entries =>
    obtain ⟨others, rfl, hlength, -⟩ := map_same_iff.1 h
    cases entries <;> cases others <;> first | rfl | exact nomatch hlength
  | null | bool b | int n | float w | str s =>
    have hy := scalar?_congr h
    rw [truthy_of_scalar? rfl, truthy_of_scalar? hy.symm]

theorem isNaN_iff : x.isNaN = true ↔ x.scalar? = some .nan := by
  cases x with
  | float w =>
    rw [isNaN, scalar?, Option.some.injEq]
    exact ⟨Binary64.scalar_of_isNaN, Binary64.isNaN_of_scalar⟩
  | null | bool b | int n | str s | list items | map entries => simp [isNaN, scalar?]

/-- Agreement is being the same, but for a NaN. -/
theorem agrees_iff : x.agrees y = true ↔ x.isNaN = false ∧ x.same y = true := by
  cases hnan : x.isNaN with
  | false => rw [same, hnan, Bool.false_and, Bool.false_or, eq_self_iff_true, true_and]
  | true =>
    cases x with
    | float w =>
      have hw : w.isNaN = true := hnan
      have hinteger (n : Int) : w.agreesInt n = false := by
        refine Bool.eq_false_iff.2 fun h => ?_
        rw [Binary64.agreesInt_iff_scalar, Binary64.scalar_of_isNaN hw] at h
        cases h
      cases y <;> simp [agrees, int?, hinteger, Binary64.agrees, hw]
    | null | bool b | int n | str s | list items | map entries => cases hnan

theorem agrees_congr_left (hx : x.IsProper) (h : x.same y = true) : x.agrees z = y.agrees z := by
  have hnan : x.isNaN = y.isNaN := by
    rw [Bool.eq_iff_iff, isNaN_iff, isNaN_iff, scalar?_congr h]
  rw [Bool.eq_iff_iff, agrees_iff, agrees_iff, hnan]
  exact and_congr_right fun _ => ⟨same_trans (same_symm hx h), same_trans h⟩

theorem agrees_congr_right (hx : x.IsProper) (h : x.same y = true) : z.agrees x = z.agrees y := by
  rw [Bool.eq_iff_iff, agrees_iff, agrees_iff]
  exact and_congr_right fun _ =>
    ⟨fun hz => same_trans hz h, fun hz => same_trans hz (same_symm hx h)⟩

end Emu8080.Datum
