import OthelloBook.Proofs.Board.Symmetries

/-!
# Canonical positions

The image that stands for a position is the smallest of all, so that every image of a position has
the same one, and it stands for itself.
-/
namespace OthelloBook.Position

theorem isCanonical_iff {p : Position} : p.isCanonical = true ↔ p.canonical = p := by
  rw [isCanonical, decide_eq_true_eq]

theorem eq_of_masks {p q : Position} (hown : p.own = q.own) (hopp : p.opposing = q.opposing) :
    p = q := by
  cases p
  cases q
  simp_all

theorem rotate_andThen (p : Position) (s t : Symmetry) :
    p.rotate (s.andThen t) = (p.rotate s).rotate t :=
  eq_of_masks (s.onMask_andThen t p.own) (s.onMask_andThen t p.opposing)

@[simp] theorem rotate_rotate_inverse (p : Position) (s : Symmetry) :
    (p.rotate s).rotate s.inverse = p :=
  eq_of_masks (s.onMask_inverse_onMask p.own) (s.onMask_inverse_onMask p.opposing)

theorem rotate_inj {p q : Position} {s : Symmetry} : p.rotate s = q.rotate s ↔ p = q := by
  constructor
  · intro h
    rw [← p.rotate_rotate_inverse s, h, rotate_rotate_inverse]
  · rintro rfl
    rfl

@[simp] theorem rotate_identity (p : Position) : p.rotate .identity = p := rfl

theorem betterImage_cases (p : Position) (best : Position × Symmetry) (s : Symmetry) :
    (p.betterImage best s = best ∧ (compare best.1 (p.rotate s)).isLE = true) ∨
      (p.betterImage best s = (p.rotate s, s) ∧ compare (p.rotate s) best.1 = .lt) := by
  rw [betterImage]
  split
  case isTrue h => exact .inr ⟨rfl, h⟩
  case isFalse h =>
    refine .inl ⟨rfl, ?_⟩
    rw [← Std.OrientedCmp.isGE_iff_isLE]
    cases hc : compare (p.rotate s) best.1 <;> simp_all

theorem foldl_betterImage_eq_rotate (p : Position) (ss : List Symmetry)
    {best : Position × Symmetry} (h : best.1 = p.rotate best.2) :
    (ss.foldl p.betterImage best).1 = p.rotate (ss.foldl p.betterImage best).2 := by
  induction ss generalizing best with
  | nil => exact h
  | cons s ss ih =>
    apply ih
    rcases p.betterImage_cases best s with ⟨hb, -⟩ | ⟨hb, -⟩ <;> rw [hb]
    exact h

theorem foldl_betterImage_isLE (p : Position) (ss : List Symmetry) (best : Position × Symmetry) :
    (compare (ss.foldl p.betterImage best).1 best.1).isLE = true ∧
      ∀ s ∈ ss, (compare (ss.foldl p.betterImage best).1 (p.rotate s)).isLE = true := by
  induction ss generalizing best with
  | nil => simp
  | cons s ss ih =>
    obtain ⟨hle, hall⟩ := ih (p.betterImage best s)
    rw [List.foldl_cons]
    have hboth : (compare (p.betterImage best s).1 best.1).isLE = true ∧
        (compare (p.betterImage best s).1 (p.rotate s)).isLE = true := by
      rcases p.betterImage_cases best s with ⟨hb, hc⟩ | ⟨hb, hc⟩ <;> simp [hb, hc]
    refine ⟨Std.TransCmp.isLE_trans hle hboth.1, ?_⟩
    intro t ht
    rcases List.mem_cons.1 ht with rfl | ht
    · exact Std.TransCmp.isLE_trans hle hboth.2
    · exact hall t ht

/-- The symmetry that is kept is the first of those that give its image: all that come before it give
greater ones. -/
theorem foldl_betterImage_first (p : Position) (ss : List Symmetry) (best : Position × Symmetry) :
    ss.foldl p.betterImage best = best ∨
      ∃ before after, ss = before ++ (ss.foldl p.betterImage best).2 :: after ∧
        compare (ss.foldl p.betterImage best).1 best.1 = .lt ∧
        ∀ u ∈ before, compare (ss.foldl p.betterImage best).1 (p.rotate u) = .lt := by
  induction ss generalizing best with
  | nil => exact .inl rfl
  | cons s ss ih =>
    rw [List.foldl_cons]
    have hrest := ih (p.betterImage best s)
    rcases p.betterImage_cases best s with ⟨hb, hc⟩ | ⟨hb, hc⟩ <;> rw [hb] at hrest ⊢
    · rcases hrest with hsame | ⟨before, after, hss, hlt, hbefore⟩
      · exact .inl hsame
      · refine .inr ⟨s :: before, after, congrArg (s :: ·) hss, hlt, ?_⟩
        exact List.forall_mem_cons.2 ⟨Std.TransCmp.lt_of_lt_of_isLE hlt hc, hbefore⟩
    · right
      rcases hrest with hsame | ⟨before, after, hss, hlt, hbefore⟩
      · rw [hsame]
        exact ⟨[], ss, rfl, hc, by simp⟩
      · refine ⟨s :: before, after, congrArg (s :: ·) hss, Std.TransCmp.lt_trans hlt hc, ?_⟩
        exact List.forall_mem_cons.2 ⟨hlt, hbefore⟩

theorem canonical_eq_rotate (p : Position) : p.canonical = p.rotate p.canonicalize.2 :=
  p.foldl_betterImage_eq_rotate Symmetry.others rfl

/-- No image is smaller than the canonical one. -/
theorem canonical_isLE (p : Position) (s : Symmetry) :
    (compare p.canonical (p.rotate s)).isLE = true := by
  obtain ⟨hself, hothers⟩ := p.foldl_betterImage_isLE Symmetry.others (p, .identity)
  rcases List.mem_cons.1 s.mem_all with rfl | hs
  · exact hself
  · exact hothers s hs

theorem canonical_isLE_canonical_rotate (p : Position) (s : Symmetry) :
    (compare p.canonical (p.rotate s).canonical).isLE = true := by
  rw [canonical_eq_rotate (p.rotate s), ← rotate_andThen]
  exact p.canonical_isLE _

/-- All images of a position have the same canonical image. -/
@[simp] theorem canonical_rotate (p : Position) (s : Symmetry) :
    (p.rotate s).canonical = p.canonical := by
  have h := (p.rotate s).canonical_isLE_canonical_rotate s.inverse
  rw [rotate_rotate_inverse] at h
  exact Std.LawfulEqCmp.eq_of_compare
    (Std.OrientedCmp.isLE_antisymm h (p.canonical_isLE_canonical_rotate s))

/-- A canonical position is found unturned: no image is smaller, so that none replaces it. -/
theorem canonicalize_of_canonical {p : Position} (h : p.canonical = p) :
    p.canonicalize = (p, .identity) := by
  have hnone : ∀ s, p.betterImage (p, .identity) s = (p, .identity) := by
    intro s
    have hle := p.canonical_isLE s
    rw [h] at hle
    rw [betterImage, if_neg]
    have hswap : compare (p.rotate s) p = (compare p (p.rotate s)).swap := Std.OrientedCmp.eq_swap
    rw [hswap]
    cases hc : compare p (p.rotate s) <;> simp_all
  have hfold : ∀ ss : List Symmetry,
      ss.foldl p.betterImage (p, .identity) = (p, .identity) := by
    intro ss
    induction ss with
    | nil => rfl
    | cons s ss ih => rw [List.foldl_cons, hnone, ih]
  exact hfold _

theorem symmetry_eq_identity {p : Position} (h : p.canonical = p) :
    p.canonicalize.2 = .identity := by
  rw [canonicalize_of_canonical h]

@[simp] theorem canonical_canonical (p : Position) : p.canonical.canonical = p.canonical := by
  conv_lhs => rw [canonical_eq_rotate p, canonical_rotate]

theorem pairwise_index_all : Symmetry.all.Pairwise fun s t => s.index < t.index := by decide

/-- No symmetry of a lower index gives the canonical image. -/
theorem index_le_of_rotate_eq {p : Position} {u : Symmetry} (h : p.rotate u = p.canonical) :
    p.canonicalize.2.index ≤ u.index := by
  rcases p.foldl_betterImage_first Symmetry.others (p, .identity) with hsame |
    ⟨before, after, hothers, hlt, hbefore⟩
  · rw [canonicalize, hsame]
    exact Nat.zero_le _
  · change compare p.canonical p = .lt at hlt
    have hall : Symmetry.all = (.identity :: before) ++ p.canonicalize.2 :: after :=
      congrArg (Symmetry.identity :: ·) hothers
    have hearlier : ∀ t ∈ Symmetry.identity :: before, p.rotate t ≠ p.canonical := by
      intro t ht heq
      have hgreater : compare p.canonical (p.rotate t) = .lt := by
        rcases List.mem_cons.1 ht with rfl | ht
        · exact hlt
        · exact hbefore t ht
      rw [heq] at hgreater
      exact absurd (Std.ReflCmp.compare_self.symm.trans hgreater) (by decide)
    have hsorted := pairwise_index_all
    have hu := u.mem_all
    rw [hall] at hsorted hu
    rcases List.mem_append.1 hu with hu | hu
    · exact absurd h (hearlier u hu)
    · rcases List.mem_cons.1 hu with hsame | hu
      · rw [hsame]
      · have hafter := (List.pairwise_append.1 hsorted).2.1
        exact (List.rel_of_pairwise_cons hafter hu).le

theorem isLE_compare_iff {p q : Position} :
    (compare p q).isLE = true ↔ p.own < q.own ∨ p.own = q.own ∧ p.opposing ≤ q.opposing := by
  have hcompare : compare p q =
      (compare p.own q.own).then (compare p.opposing q.opposing) := rfl
  rw [hcompare, Ordering.isLE_then_iff_or, Std.compare_eq_lt, Std.compare_eq_iff_eq,
    Std.isLE_compare]

/-- The canonical image is the least of all images, by the discs of the side to move and then by those
of the other side. It comes with the first symmetry that gives it, by which it is turned back into the
position. All images have the same one, and it is its own, unturned. -/
theorem canonicalize_finds_the_representative (p : Position) (s : Symmetry) :
    (∀ u, p.canonicalize.1.own < (p.rotate u).own ∨
      p.canonicalize.1.own = (p.rotate u).own ∧
        p.canonicalize.1.opposing ≤ (p.rotate u).opposing) ∧
    p.rotate p.canonicalize.2 = p.canonicalize.1 ∧
    p.canonicalize.1.unrotate p.canonicalize.2 = p ∧
    (∀ u, p.rotate u = p.canonicalize.1 → p.canonicalize.2.index ≤ u.index) ∧
    (p.rotate s).canonicalize.1 = p.canonicalize.1 ∧
    p.canonicalize.1.canonicalize = (p.canonicalize.1, .identity) := by
  have hrotate : p.canonicalize.1 = p.rotate p.canonicalize.2 := p.canonical_eq_rotate
  have hself : p.canonicalize.1.canonical = p.canonicalize.1 := p.canonical_canonical
  refine ⟨fun u => isLE_compare_iff.1 (p.canonical_isLE u), hrotate.symm, ?_,
    fun u => index_le_of_rotate_eq, p.canonical_rotate s, canonicalize_of_canonical hself⟩
  rw [unrotate, hrotate, rotate_rotate_inverse]

/-- The first position with its files reversed has itself turned back for its canonical image. The
reversal of the ranks gives the same image and comes later. -/
theorem canonicalize_finds_the_representative_tie :
    ∃ p : Position, p.canonicalize = (.start, ⟨true, false, false⟩) ∧
      p.rotate ⟨false, true, false⟩ = p.canonicalize.1 ∧
      p.canonicalize.2.index ≤ (⟨false, true, false⟩ : Symmetry).index := by
  let p : Position := .rotate .start ⟨true, false, false⟩
  have hranks : p.rotate ⟨false, true, false⟩ = p.canonicalize.1 := by decide +kernel
  exact ⟨p, by decide +kernel, hranks,
    (canonicalize_finds_the_representative p .identity).2.2.2.1 _ hranks⟩

end OthelloBook.Position
