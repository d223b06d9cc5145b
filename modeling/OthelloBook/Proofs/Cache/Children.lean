import OthelloBook.Proofs.Cache.Lookup
import OthelloBook.Proofs.Position.Games

/-!
# What the children of a position still need

A lookup succeeds when the cache has an entry under the key of the position, if it has a key at all. So
the keys that are missing for the children of a position are the keys of the children that cannot be
looked up, and entries for these are enough for all children.
-/
namespace OthelloBook

namespace Position

/-- Lists of the same positions have the same ascending list. -/
theorem ascending_congr {ps qs : List Position} (h : ∀ p, p ∈ ps ↔ p ∈ qs) :
    ascending ps = ascending qs := by
  have hsame : (Std.TreeSet.ofList ps).Equiv (Std.TreeSet.ofList qs) :=
    .of_forall_mem_iff fun p => by simp [Std.TreeSet.mem_ofList, h]
  exact hsame.toList_eq

theorem exists_mem_children {p : Position} {P : Position → Prop} :
    (∃ child ∈ p.children, P child.2) ↔ ∃ s, p.moves.contains s = true ∧ P (p.place s) := by
  simp [children, Mask.mem_squares]

end Position

namespace Cache

variable {c : Cache} {p k : Position} {e : Evaluation} {es : List Evaluation}

theorem isOk_lookupStored (c : Cache) (p : Position) :
    (c.lookupStored p).isOk = c.contains p.canonical := by
  rw [isOk_eq_isSome_toOption, toOption_lookupStored, Option.isSome_map, contains]

/-- A position is found exactly when there is an entry under its key, if it has one. -/
theorem isOk_lookup_iff :
    (c.lookup p).isOk = true ↔ ∀ k, LookupRule.storageKey? p = some k → c.contains k = true := by
  rw [lookup, LookupRule.storageKey?]
  cases LookupRule.of p with
  | gameEnd => simp [Except.isOk, Except.toBool]
  | pass =>
    have hmap : ((c.lookupStored p.pass).map Evaluation.beforePass).isOk =
        (c.lookupStored p.pass).isOk := by
      cases c.lookupStored p.pass <;> rfl
    simp [hmap, isOk_lookupStored]
  | stored => simp [isOk_lookupStored]

theorem isOk_lookup_eq_false_iff :
    (c.lookup p).isOk = false ↔ ∃ k, LookupRule.storageKey? p = some k ∧ c.contains k = false := by
  rw [← Bool.not_eq_true, isOk_lookup_iff]
  push Not
  simp

section Missing

theorem mem_missingChildren :
    k ∈ c.missingChildren p ↔
      c.contains k = false ∧ ∃ child ∈ p.children, LookupRule.storageKey? child.2 = some k := by
  rw [missingChildren, Position.mem_ascending, List.mem_filter, List.mem_filterMap, and_comm,
    Bool.not_eq_true']

/-- All images of a position need the same keys. -/
theorem missingChildren_rotate (c : Cache) (p : Position) (s : Symmetry) :
    c.missingChildren (p.rotate s) = c.missingChildren p := by
  refine Position.ascending_congr fun k => ?_
  rw [List.mem_filter, List.mem_filter, List.mem_filterMap, List.mem_filterMap,
    Position.exists_mem_children (P := fun q => LookupRule.storageKey? q = some k),
    Position.exists_mem_children (P := fun q => LookupRule.storageKey? q = some k),
    LookupRule.exists_place_rotate]

/-- The missing keys are those of the children that cannot be looked up. -/
theorem mem_missingChildren_iff_isOk :
    k ∈ c.missingChildren p ↔ ∃ child ∈ p.children,
      (c.lookup child.2).isOk = false ∧ LookupRule.storageKey? child.2 = some k := by
  rw [mem_missingChildren]
  constructor
  · rintro ⟨hnone, child, hchild, hkey⟩
    exact ⟨child, hchild, isOk_lookup_eq_false_iff.2 ⟨k, hkey, hnone⟩, hkey⟩
  · rintro ⟨child, hchild, hfails, hkey⟩
    obtain ⟨l, hl, hnone⟩ := isOk_lookup_eq_false_iff.1 hfails
    obtain rfl : k = l := Option.some.inj (hkey.symm.trans hl)
    exact ⟨hnone, child, hchild, hkey⟩

theorem missingChildren_eq_nil_iff :
    c.missingChildren p = [] ↔ ∀ child ∈ p.children, (c.lookup child.2).isOk = true := by
  rw [List.eq_nil_iff_forall_not_mem]
  constructor
  · intro h child hchild
    by_contra hfails
    rw [Bool.not_eq_true] at hfails
    obtain ⟨k, hkey, -⟩ := isOk_lookup_eq_false_iff.1 hfails
    exact h k (mem_missingChildren_iff_isOk.2 ⟨child, hchild, hfails, hkey⟩)
  · intro h k hk
    obtain ⟨child, hchild, hfails, -⟩ := mem_missingChildren_iff_isOk.1 hk
    rw [h child hchild] at hfails
    cases hfails

theorem canonical_of_mem_missingChildren (h : k ∈ c.missingChildren p) : k.canonical = k := by
  obtain ⟨-, child, -, hkey⟩ := mem_missingChildren.1 h
  rcases LookupRule.storageKey?_eq_some_iff.1 hkey with ⟨-, rfl⟩ | ⟨-, -, rfl⟩
  · exact child.2.canonical_canonical
  · exact child.2.pass.canonical_canonical

end Missing

section Additions

theorem contains_offerAny :
    (c.offerAny e).contains k = true ↔ e.position.canonical = k ∨ c.contains k = true := by
  rw [contains, get?_offerAny, contains]
  by_cases hk : e.position.canonical = k <;> simp [hk]

theorem contains_add_of_contains (h : c.contains k = true) : (c.add p e).2.contains k = true := by
  by_cases hok : (c.add p e).1.isOk = true
  · rw [add_of_isOk c p e hok, contains_offerAny]
    exact .inr h
  · rwa [add_of_not_isOk c p e hok]

theorem contains_add_of_canonical (h : e.position.canonical = e.position) :
    (c.add e.position e).2.contains e.position = true := by
  have hok : (c.add e.position e).1.isOk = true :=
    (c.isOk_add _ e).2 ⟨Position.isCanonical_iff.2 h, rfl⟩
  rw [add_of_isOk c _ e hok, contains_offerAny]
  exact .inl h

variable {f : Cache → Evaluation → Cache}
  (hkeep : ∀ k d e, d.contains k = true → (f d e).contains k = true)
include hkeep

theorem contains_foldl (es : List Evaluation) (h : c.contains k = true) :
    (es.foldl f c).contains k = true := by
  induction es generalizing c with
  | nil => exact h
  | cons e es ih => exact ih (hkeep k c e h)

/-- When no step loses a key and each missing key is brought in by a step, all children are found. -/
theorem isOk_lookup_foldl
    (hnew : ∀ k ∈ c.missingChildren p, ∃ e ∈ es, ∀ d, (f d e).contains k = true)
    {child : Square × Position} (h : child ∈ p.children) :
    ((es.foldl f c).lookup child.2).isOk = true := by
  rw [isOk_lookup_iff]
  intro k hkey
  by_cases hk : c.contains k = true
  · exact contains_foldl hkeep es hk
  · have hmissing := mem_missingChildren.2 ⟨Bool.eq_false_iff.2 hk, child, h, hkey⟩
    obtain ⟨e, he, hstep⟩ := hnew k hmissing
    obtain ⟨before, after, rfl⟩ := List.append_of_mem he
    rw [List.foldl_append, List.foldl_cons]
    exact contains_foldl hkeep after (hstep _)

end Additions

/-- The keys that are listed for the children of a position come in ascending order, each once. They
are the keys of children that have no entry, which are the keys of the children that cannot be looked
up, and a child without a key can always be looked up. So nothing is listed exactly when all children
are found, and they are all found after an evaluation is added for each listed key, under the key or
for any image of it. The list does not depend on the orientation of the position. -/
theorem missing_children_are_the_keys_not_found (c : Cache) (p : Position) (s : Symmetry) :
    (c.missingChildren p).Pairwise (· < ·) ∧
    (∀ k, k ∈ c.missingChildren p ↔
      c.contains k = false ∧ ∃ child ∈ p.children, LookupRule.storageKey? child.2 = some k) ∧
    (∀ k, k ∈ c.missingChildren p ↔ ∃ child ∈ p.children,
      (c.lookup child.2).isOk = false ∧ LookupRule.storageKey? child.2 = some k) ∧
    (∀ child ∈ p.children, LookupRule.storageKey? child.2 = none → (c.lookup child.2).isOk = true) ∧
    (c.missingChildren p = [] ↔ ∀ child ∈ p.children, (c.lookup child.2).isOk = true) ∧
    (∀ es : List Evaluation, (∀ k ∈ c.missingChildren p, ∃ e ∈ es, e.position = k) →
      ∀ child ∈ p.children,
        ((es.foldl (fun d e => (d.add e.position e).2) c).lookup child.2).isOk = true) ∧
    (∀ es : List Evaluation, (∀ k ∈ c.missingChildren p, ∃ e ∈ es, e.position.canonical = k) →
      ∀ child ∈ p.children,
        ((es.foldl (fun d e => (d.addAny e).2) c).lookup child.2).isOk = true) ∧
    c.missingChildren (p.rotate s) = c.missingChildren p := by
  refine ⟨Position.pairwise_ascending _, fun k => mem_missingChildren,
    fun k => mem_missingChildren_iff_isOk, fun child hchild hnone => ?_, missingChildren_eq_nil_iff,
    fun es hes child hchild => ?_, fun es hes child hchild => ?_, c.missingChildren_rotate p s⟩
  · rw [isOk_lookup_iff, hnone]
    simp
  · refine isOk_lookup_foldl (fun k d e => contains_add_of_contains) (fun k hk => ?_) hchild
    obtain ⟨e, he, rfl⟩ := hes k hk
    exact ⟨e, he, fun d => contains_add_of_canonical (canonical_of_mem_missingChildren hk)⟩
  · refine isOk_lookup_foldl (fun k d e hd => ?_) (fun k hk => ?_) hchild
    · rw [addAny_eq]
      exact contains_offerAny.2 (.inr hd)
    · obtain ⟨e, he, hkey⟩ := hes k hk
      refine ⟨e, he, fun d => ?_⟩
      rw [addAny_eq]
      exact contains_offerAny.2 (.inl hkey)

/-- After the first move there are three replies, which are not images of each other. With one of them in
the cache the other two are listed, also when the board is turned. Evaluations of the listed keys, or of
images of them, are enough for all three. -/
theorem missing_children_are_the_keys_not_found_first_reply :
    ∃ (c : Cache) (p : Position) (es fs : List Evaluation),
      (c.missingChildren p).length = 2 ∧ p.children.length = 3 ∧
      (c.missingChildren (p.rotate ⟨false, false, true⟩)).length = 2 ∧
      (∀ k ∈ c.missingChildren p, ∃ e ∈ es, e.position = k) ∧
      (∀ child ∈ p.children,
        ((es.foldl (fun d e => (d.add e.position e).2) c).lookup child.2).isOk = true) ∧
      (∀ f ∈ fs, f.position.canonical ≠ f.position) ∧
      (∀ k ∈ c.missingChildren p, ∃ f ∈ fs, f.position.canonical = k) ∧
      ∀ child ∈ p.children,
        ((fs.foldl (fun d f => (d.addAny f).2) c).lookup child.2).isOk = true := by
  let p : Position := Position.start.place 19
  let c : Cache := .ofList [⟨p.place 18, 16, 16, .p73, 0, []⟩]
  let es : List Evaluation := (c.missingChildren p).map fun k => ⟨k, 16, 16, .p73, 0, []⟩
  let fs : List Evaluation := es.map fun e => e.rotate ⟨true, false, true⟩
  obtain ⟨-, -, -, -, -, hadd, haddAny, hrotate⟩ :=
    missing_children_are_the_keys_not_found c p ⟨false, false, true⟩
  have hes : ∀ k ∈ c.missingChildren p, ∃ e ∈ es, e.position = k := fun k hk =>
    ⟨_, List.mem_map_of_mem hk, rfl⟩
  have hfs : ∀ k ∈ c.missingChildren p, ∃ f ∈ fs, f.position.canonical = k := by
    decide +kernel
  have hlength : (c.missingChildren p).length = 2 := by decide +kernel
  exact ⟨c, p, es, fs, hlength, by decide +kernel, by rw [hrotate, hlength], hes, hadd es hes,
    by decide +kernel, hfs, haddAny fs hfs⟩

end Cache
end OthelloBook
