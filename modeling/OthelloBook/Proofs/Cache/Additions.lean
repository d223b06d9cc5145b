import OthelloBook.Proofs.Cache.Lookup

/-!
# What is added is what is found

An evaluation of any image of a position is turned to the canonical image when it is added, and turned
back when it is looked up. Both ends choose the same symmetry, so that it comes back as it was, also
where several symmetries lead to the canonical image. An addition changes no lookup under other keys.
-/
namespace OthelloBook.Cache

open Evaluation

variable {c : Cache} {p : Position} {e : Evaluation}

/-- An offer is taken, and is the entry from then on, or it is refused for an entry that is no weaker. -/
theorem offer_cases (c : Cache) (p : Position) (e : Evaluation) :
    ((c.offer p e).1 = true ∧ (c.offer p e).2.get? p = some e) ∨
      (c.offer p e = (false, c) ∧ ∃ f, c.get? p = some f ∧ ¬f.strength < e.strength) := by
  rw [offer]
  cases hp : c.get? p with
  | none => exact .inl ⟨rfl, by simp [get?_insert]⟩
  | some f =>
    by_cases hlt : f.strength < e.strength
    · simp [isBetterThan_iff.2 hlt, get?_insert]
    · have hbetter : e.isBetterThan f = false := by rw [isBetterThan, decide_eq_false hlt]
      exact .inr ⟨by simp [hbetter], f, rfl, hlt⟩

/-- A lookup of a position with a legal move finds what the entry of its canonical image turns into. -/
theorem lookup_eq_ok_iff (hmoves : p.hasMoves = true) :
    c.lookup p = .ok e ↔ c.get? p.canonical = some (e.rotate p.canonicalize.2) := by
  rw [lookup_eq_resolve, LookupRule.resolve_of_stored (LookupRule.of_eq_stored_iff.2 hmoves),
    lookupStored_eq_ok_iff]

/-- What is found for an image of a position is an image of what is found for the position. -/
theorem exists_lookup_rotate (s : Symmetry) (h : c.lookup p = .ok e) :
    ∃ t, p.rotate t = p.rotate s ∧ c.lookup (p.rotate s) = .ok (e.rotate t) := by
  obtain ⟨t, ht, hfound⟩ := LookupRule.resolve_rotate p s (c.lookupStored_rotate s)
  rw [← lookup_eq_resolve, ← lookup_eq_resolve, h] at hfound
  refine ⟨t, ht, ?_⟩
  cases hs : c.lookup (p.rotate s) with
  | error x =>
    rw [hs] at hfound
    cases hfound
  | ok f =>
    rw [hs] at hfound
    exact congrArg Except.ok (Option.some.inj hfound)

/-- An addition changes only lookups under the key of its evaluation. -/
theorem lookup_addAny_of_ne (h : LookupRule.storageKey? p ≠ some e.position.canonical) :
    (c.addAny e).2.lookup p = c.lookup p := by
  rw [addAny_eq]
  refine lookup_congr fun k hk => ?_
  rw [get?_offerAny, if_neg]
  rintro rfl
  exact h hk

/-- An addition is taken, and the evaluation is found for its position from then on, or it is refused
and changes nothing, for something that is no weaker is found there. -/
theorem addAny_cases (c : Cache) (hmoves : e.position.hasMoves = true) :
    ((c.addAny e).1 = .ok true ∧ (c.addAny e).2.lookup e.position = .ok e) ∨
      (c.addAny e = (.ok false, c) ∧
        ∃ f, c.lookup e.position = .ok f ∧ ¬f.strength < e.strength) := by
  have hkey := e.position_canonicalize
  rw [addAny_eq, offerAny, hkey]
  rcases c.offer_cases e.position.canonical e.canonicalize with
    ⟨htaken, hentry⟩ | ⟨hrefused, f, hentry, hlt⟩
  · exact .inl ⟨congrArg Except.ok htaken, (lookup_eq_ok_iff hmoves).2 hentry⟩
  · refine .inr ⟨by rw [hrefused], f.unrotate e.position.canonicalize.2,
      (lookup_eq_ok_iff hmoves).2 ?_, ?_⟩
    · rw [hentry, unrotate, rotate_inverse_rotate]
    · rwa [unrotate, strength_rotate, ← e.strength_canonicalize]

/-- An evaluation that is added is found as it is, and each image of its position is found with the same
level, depth, confidence and score. One that is refused leaves all lookups as they are, for something
that is no weaker is found already. Either way the addition is not an error, and no lookup under another
key changes. -/
theorem added_evaluation_is_found (c : Cache) (e : Evaluation) (hmoves : e.position.hasMoves = true) :
    (∃ changed, (c.addAny e).1 = .ok changed) ∧
    ((c.addAny e).1 = .ok true →
      (c.addAny e).2.lookup e.position = .ok e ∧
      ∀ s, ∃ f, (c.addAny e).2.lookup (e.position.rotate s) = .ok f ∧
        f.position = e.position.rotate s ∧ f.level = e.level ∧ f.depth = e.depth ∧
        f.confidence = e.confidence ∧ f.score = e.score) ∧
    ((c.addAny e).1 = .ok false →
      (∀ p, (c.addAny e).2.lookup p = c.lookup p) ∧
      ∃ f, (c.addAny e).2.lookup e.position = .ok f ∧ ¬f.strength < e.strength) ∧
    ∀ p, LookupRule.storageKey? p ≠ some e.position.canonical →
      (c.addAny e).2.lookup p = c.lookup p := by
  refine ⟨?_, fun htaken => ?_, fun hrefused => ?_, fun p => lookup_addAny_of_ne⟩
  · rw [addAny_eq]
    exact ⟨_, rfl⟩
  · rcases c.addAny_cases hmoves with ⟨-, hfound⟩ | ⟨hrefused, -⟩
    · refine ⟨hfound, fun s => ?_⟩
      obtain ⟨t, ht, himage⟩ := exists_lookup_rotate s hfound
      exact ⟨e.rotate t, himage, ht, rfl, rfl, rfl, rfl⟩
    · rw [hrefused] at htaken
      cases htaken
  · rcases c.addAny_cases hmoves with ⟨htaken, -⟩ | ⟨hsame, hfound⟩
    · rw [htaken] at hrefused
      cases hrefused
    · rw [hsame]
      exact ⟨fun p => rfl, hfound⟩

/-- A position that is its own image under a half turn, with a best move that is not, is found just as
it was added. A weaker search of it is refused, and a side that has to pass is looked up under another
key. -/
theorem added_evaluation_is_found_half_turn :
    ∃ (c : Cache) (strong weak : Evaluation) (blocked : Position),
      strong.position.rotate ⟨true, true, false⟩ = strong.position ∧
      strong.rotate ⟨true, true, false⟩ ≠ strong ∧ strong.position.hasMoves = true ∧
      (c.addAny strong).1 = .ok true ∧ (c.addAny strong).2.lookup strong.position = .ok strong ∧
      weak.position = strong.position ∧ (c.addAny weak).1 = .ok false ∧
      (∃ f, (c.addAny weak).2.lookup weak.position = .ok f ∧ ¬f.strength < weak.strength) ∧
      blocked.hasMoves = false ∧
      LookupRule.storageKey? blocked ≠ some strong.position.canonical ∧
      (c.addAny strong).2.lookup blocked = c.lookup blocked := by
  let c : Cache := .ofList [⟨.start, 16, 16, .p73, 0, []⟩]
  let p : Position := .rotate .start ⟨true, false, false⟩
  let strong : Evaluation := ⟨p, 18, 18, .p95, 2, [.play 20]⟩
  let weak : Evaluation := ⟨p, 16, 14, .p73, 1, []⟩
  let blocked : Position := ⟨0x02, 0xfc, by decide⟩
  have hmoves : p.hasMoves = true := by decide +kernel
  obtain ⟨-, htaken, -, hother⟩ := added_evaluation_is_found c strong hmoves
  obtain ⟨-, -, hrefused, -⟩ := added_evaluation_is_found c weak hmoves
  have hstrong : (c.addAny strong).1 = .ok true := by decide +kernel
  have hweak : (c.addAny weak).1 = .ok false := by decide +kernel
  have hkey : LookupRule.storageKey? blocked ≠ some strong.position.canonical := by decide +kernel
  exact ⟨c, strong, weak, blocked, by decide +kernel, by decide +kernel, hmoves, hstrong,
    (htaken hstrong).1, rfl, hweak, (hrefused hweak).2, by decide +kernel, hkey, hother blocked hkey⟩

end OthelloBook.Cache
