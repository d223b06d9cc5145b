import OthelloBook.Proofs.Cache.History

/-!
# What a cache finds

A position is resolved by its rule from the answers for positions with a legal move. A lookup answers
with the entry of the canonical image turned back, by the first symmetry that leads there. Images of
a position have the same entry, and the answers for them are images of each other, also where a
position is its own image and the symmetries of the question and of the entry differ.
-/
namespace OthelloBook

open Evaluation

namespace Position

theorem mem_ascending {ps : List Position} {p : Position} : p ∈ ascending ps ↔ p ∈ ps := by
  simp [ascending, Std.TreeSet.mem_ofList]

theorem pairwise_ascending (ps : List Position) : (ascending ps).Pairwise (· < ·) :=
  Std.TreeSet.ordered_toList

end Position

namespace LookupRule

variable {p : Position}

theorem of_eq_stored_iff : of p = .stored ↔ p.hasMoves = true := by
  rw [of]
  split_ifs <;> simp_all

theorem of_eq_pass_iff : of p = .pass ↔ p.hasMoves = false ∧ p.pass.hasMoves = true := by
  rw [of]
  split_ifs <;> simp_all

theorem of_eq_gameEnd_iff : of p = .gameEnd ↔ p.hasMoves = false ∧ p.pass.hasMoves = false := by
  rw [of]
  split_ifs <;> simp_all

section Resolve

variable {ε : Type} {answer : Position → Except ε Evaluation} {e : Evaluation}

/-- The evaluation of any position, from the answers for positions with a legal move. -/
def resolve (answer : Position → Except ε Evaluation) (p : Position) : Except ε Evaluation :=
  match of p with
  | .gameEnd => .ok (.ofGameEnd p)
  | .pass => (answer p.pass).map beforePass
  | .stored => answer p

theorem resolve_of_gameEnd (h : of p = .gameEnd) : resolve answer p = .ok (.ofGameEnd p) := by
  rw [resolve, h]

theorem resolve_of_pass (h : of p = .pass) :
    resolve answer p = (answer p.pass).map beforePass := by
  rw [resolve, h]

theorem resolve_of_stored (h : of p = .stored) : resolve answer p = answer p := by
  rw [resolve, h]

/-- How an evaluation came about. -/
theorem resolve_cases (h : resolve answer p = .ok e) :
    ofGameEnd p = e ∨
      (p.hasMoves = false ∧ p.pass.hasMoves = true ∧
        ∃ f, answer p.pass = .ok f ∧ f.beforePass = e) ∨
      (p.hasMoves = true ∧ answer p = .ok e) := by
  cases hrule : of p with
  | gameEnd =>
    rw [resolve_of_gameEnd hrule] at h
    exact .inl (Except.ok.inj h)
  | pass =>
    rw [resolve_of_pass hrule] at h
    obtain ⟨hblocked, hside⟩ := of_eq_pass_iff.1 hrule
    refine .inr (.inl ⟨hblocked, hside, ?_⟩)
    cases hf : answer p.pass with
    | error x => simp [hf, Except.map] at h
    | ok f =>
      rw [hf] at h
      exact ⟨f, rfl, Except.ok.inj h⟩
  | stored =>
    rw [resolve_of_stored hrule] at h
    exact .inr (.inr ⟨of_eq_stored_iff.1 hrule, h⟩)

/-- If answers are for the positions that were asked for, so is what is resolved from them. -/
theorem position_of_resolve
    (hposition : ∀ q f, q.hasMoves = true → answer q = .ok f → f.position = q)
    (h : resolve answer p = .ok e) : e.position = p := by
  rcases resolve_cases h with rfl | ⟨-, hside, f, hf, rfl⟩ | ⟨hmoves, he⟩
  · rfl
  · exact congrArg Position.pass (hposition _ f hside hf)
  · exact hposition p e hmoves he

theorem valid_of_resolve
    (hposition : ∀ q f, q.hasMoves = true → answer q = .ok f → f.position = q)
    (hvalid : ∀ q f, q.hasMoves = true → answer q = .ok f → f.Valid)
    (h : resolve answer p = .ok e) : e.Valid := by
  rcases resolve_cases h with rfl | ⟨hblocked, hside, f, hf, rfl⟩ | ⟨hmoves, he⟩
  · exact valid_ofGameEnd p
  · refine (hvalid _ f hside hf).beforePass ?_
    rw [hposition _ f hside hf]
    exact hblocked
  · exact hvalid p e hmoves he

/-- A position without a legal move is resolved when its other side is, with the opposite score. -/
theorem resolve_pass (answer : Position → Except ε Evaluation) (hblocked : p.hasMoves = false) :
    (resolve answer p).isOk = (resolve answer p.pass).isOk ∧
      ∀ e f, resolve answer p = .ok e → resolve answer p.pass = .ok f → e.score = -f.score := by
  cases hside : p.pass.hasMoves with
  | false =>
    rw [resolve_of_gameEnd (of_eq_gameEnd_iff.2 ⟨hblocked, hside⟩),
      resolve_of_gameEnd (of_eq_gameEnd_iff.2 ⟨hside, hblocked⟩)]
    refine ⟨rfl, ?_⟩
    rintro e f ⟨⟩ ⟨⟩
    simp [ofGameEnd]
  | true =>
    rw [resolve_of_pass (of_eq_pass_iff.2 ⟨hblocked, hside⟩),
      resolve_of_stored (of_eq_stored_iff.2 hside)]
    cases answer p.pass with
    | error x =>
      refine ⟨rfl, ?_⟩
      rintro e f ⟨⟩
    | ok g =>
      refine ⟨rfl, ?_⟩
      rintro e f ⟨⟩ ⟨⟩
      rfl

theorem toOption_map_beforePass (x : Except ε Evaluation) :
    (x.map beforePass).toOption = x.toOption.map beforePass := by
  cases x <;> rfl

/-- If answers for images of a position are images of each other, so is what is resolved from them. -/
theorem resolve_rotate (p : Position) (s : Symmetry)
    (hanswer : ∀ q : Position, ∃ t, q.rotate t = q.rotate s ∧
      (answer (q.rotate s)).toOption = (answer q).toOption.map (·.rotate t)) :
    ∃ t, p.rotate t = p.rotate s ∧
      (resolve answer (p.rotate s)).toOption = (resolve answer p).toOption.map (·.rotate t) := by
  cases hrule : of p with
  | gameEnd =>
    refine ⟨s, rfl, ?_⟩
    rw [resolve_of_gameEnd hrule, resolve_of_gameEnd (by rw [of_rotate, hrule])]
    exact congrArg some (ofGameEnd_rotate s p)
  | pass =>
    obtain ⟨t, ht, hfound⟩ := hanswer p.pass
    refine ⟨t, congrArg Position.pass ht, ?_⟩
    rw [resolve_of_pass hrule, resolve_of_pass (by rw [of_rotate, hrule]), Position.pass_rotate,
      toOption_map_beforePass, toOption_map_beforePass, hfound, Option.map_map, Option.map_map]
    exact Option.map_congr fun f _ => f.beforePass_rotate t
  | stored =>
    obtain ⟨t, ht, hfound⟩ := hanswer p
    refine ⟨t, ht, ?_⟩
    rw [resolve_of_stored hrule, resolve_of_stored (by rw [of_rotate, hrule])]
    exact hfound

end Resolve

end LookupRule

namespace Cache

variable {c d : Cache} {p : Position} {e : Evaluation}

theorem lookup_eq_resolve (c : Cache) (p : Position) :
    c.lookup p = LookupRule.resolve c.lookupStored p := rfl

theorem lookupStored_congr (h : c.get? p.canonical = d.get? p.canonical) :
    c.lookupStored p = d.lookupStored p := by
  rw [Position.canonical] at h
  rw [lookupStored, lookupStored, h]

/-- A lookup needs nothing of a cache but the entry under its key. -/
theorem lookup_congr (h : ∀ k, LookupRule.storageKey? p = some k → c.get? k = d.get? k) :
    c.lookup p = d.lookup p := by
  rw [lookup, lookup]
  cases hrule : LookupRule.of p with
  | gameEnd => rfl
  | pass =>
    have hkey := h p.pass.canonical (by rw [LookupRule.storageKey?, hrule])
    exact congrArg (Except.map beforePass) (lookupStored_congr hkey)
  | stored => exact lookupStored_congr (h p.canonical (by rw [LookupRule.storageKey?, hrule]))

theorem toOption_lookupStored (c : Cache) (p : Position) :
    (c.lookupStored p).toOption = (c.get? p.canonical).map (·.unrotate p.canonicalize.2) := by
  rw [lookupStored, Position.canonical]
  cases c.get? p.canonicalize.1 <;> rfl

theorem lookupStored_eq_ok_iff :
    c.lookupStored p = .ok e ↔ c.get? p.canonical = some (e.rotate p.canonicalize.2) := by
  have hback : ∀ f, f.unrotate p.canonicalize.2 = e ↔ f = e.rotate p.canonicalize.2 := by
    intro f
    constructor
    · rintro rfl
      exact (f.rotate_inverse_rotate _).symm
    · rintro rfl
      exact e.rotate_rotate_inverse _
  rw [lookupStored, Position.canonical]
  cases c.get? p.canonicalize.1 with
  | none => simp
  | some f => simp [hback]

theorem position_of_lookupStored (hc : c.Keyed) (h : c.lookupStored p = .ok e) : e.position = p := by
  have hposition := (hc _ _ (lookupStored_eq_ok_iff.1 h)).2
  rw [position_rotate, Position.canonical_eq_rotate, Position.rotate_inj] at hposition
  exact hposition

theorem valid_of_lookupStored (hvalid : ∀ k f, c.get? k = some f → f.Valid)
    (h : c.lookupStored p = .ok e) : e.Valid := by
  have hentry := hvalid _ _ (lookupStored_eq_ok_iff.1 h)
  rw [← e.rotate_rotate_inverse p.canonicalize.2]
  exact hentry.rotate _

/-- What is stored for an image of a position is an image of what is stored for the position. -/
theorem lookupStored_rotate (c : Cache) (s : Symmetry) (p : Position) :
    ∃ t, p.rotate t = p.rotate s ∧
      (c.lookupStored (p.rotate s)).toOption = (c.lookupStored p).toOption.map (·.rotate t) := by
  -- The symmetry goes through the canonical image, which both questions share.
  refine ⟨p.canonicalize.2.andThen (p.rotate s).canonicalize.2.inverse, ?_, ?_⟩
  · rw [Position.rotate_andThen, ← Position.canonical_eq_rotate, ← p.canonical_rotate s,
      Position.canonical_eq_rotate (p.rotate s), Position.rotate_rotate_inverse]
  · rw [toOption_lookupStored, toOption_lookupStored, Position.canonical_rotate, Option.map_map]
    refine Option.map_congr fun f _ => ?_
    simp only [Function.comp_apply, unrotate, rotate_andThen, rotate_inverse_rotate]

/-- An evaluation that is found is one of the position that was asked for. -/
theorem position_of_lookup (hc : c.Keyed) (h : c.lookup p = .ok e) : e.position = p :=
  LookupRule.position_of_resolve (fun _ _ _ => position_of_lookupStored hc) h

theorem valid_of_lookup (hc : c.Keyed) (hvalid : ∀ k f, c.get? k = some f → f.Valid)
    (h : c.lookup p = .ok e) : e.Valid :=
  LookupRule.valid_of_resolve (fun _ _ _ => position_of_lookupStored hc)
    (fun _ _ _ => valid_of_lookupStored hvalid) h

theorem isOk_eq_isSome_toOption (x : Except BookError Evaluation) : x.isOk = x.toOption.isSome := by
  cases x <;> rfl

/-- What is found for a position in a cache that is made of valid evaluations is an evaluation of it,
with moves that can be played from it. For an image of the position it is the image of the same
evaluation, under some symmetry that leads to this image too. And of two sides without a legal move
either both are found, with opposite scores, or neither is. -/
theorem lookup_respects_orientation_and_side (h : History) (hvalid : ∀ e ∈ h.evaluations, e.Valid)
    (p : Position) (s : Symmetry) :
    (∀ e, h.cache.lookup p = .ok e → e.position = p ∧ p.Replays e.bestMoves) ∧
    (h.cache.lookup (p.rotate s)).isOk = (h.cache.lookup p).isOk ∧
    (∀ e f, h.cache.lookup p = .ok e → h.cache.lookup (p.rotate s) = .ok f →
      (∃ t, p.rotate t = p.rotate s ∧ f = e.rotate t) ∧
        f.level = e.level ∧ f.depth = e.depth ∧ f.confidence = e.confidence ∧ f.score = e.score) ∧
    (p.hasMoves = false →
      (h.cache.lookup p).isOk = (h.cache.lookup p.pass).isOk ∧
        ∀ e f, h.cache.lookup p = .ok e → h.cache.lookup p.pass = .ok f → e.score = -f.score) := by
  obtain ⟨t, ht, hfound⟩ := LookupRule.resolve_rotate p s (h.cache.lookupStored_rotate s)
  rw [← lookup_eq_resolve, ← lookup_eq_resolve] at hfound
  refine ⟨fun e he => ?_, ?_, fun e f he hf => ?_, LookupRule.resolve_pass h.cache.lookupStored⟩
  · have hposition := position_of_lookup h.keyed he
    have hreplays := (valid_of_lookup h.keyed (fun k f => h.valid_of_get?_cache hvalid) he).replays
    exact ⟨hposition, hposition ▸ hreplays⟩
  · rw [isOk_eq_isSome_toOption, isOk_eq_isSome_toOption, hfound, Option.isSome_map]
  · rw [he, hf] at hfound
    obtain rfl : f = e.rotate t := Option.some.inj hfound
    exact ⟨⟨t, ht, rfl⟩, rfl, rfl, rfl, rfl⟩

/-- The first position is its own image when it is turned by half, but the move that is found for it
is not. The side that has to pass is found with the opposite score of the other side. -/
theorem lookup_respects_orientation_and_side_half_turn :
    ∃ (h : History) (blocked : Position) (found : Evaluation),
      (∀ e ∈ h.evaluations, e.Valid) ∧ blocked.hasMoves = false ∧
      h.cache.lookup .start = .ok found ∧ Position.start.Replays found.bestMoves ∧
      Position.start.rotate ⟨true, true, false⟩ = .start ∧
      found.rotate ⟨true, true, false⟩ ≠ found ∧
      (∃ t, Position.start.rotate t = Position.start.rotate ⟨true, true, false⟩ ∧
        found = found.rotate t) ∧
      (h.cache.lookup blocked).isOk = true ∧
      ∀ e f, h.cache.lookup blocked = .ok e → h.cache.lookup blocked.pass = .ok f →
        e.score = -f.score := by
  let blocked : Position := ⟨0x02, 0xfc, by decide⟩
  let found : Evaluation := ⟨.start, 16, 16, .p73, 1, [.play 19]⟩
  let h : History := (History.empty.addAny found).update
    (.collect [⟨blocked.pass, 20, 20, .p95, 5, [.play 0]⟩])
  have hvalid : ∀ e ∈ h.evaluations, e.Valid := by
    simp only [← fault?_eq_none_iff]
    decide +kernel
  have hblocked : blocked.hasMoves = false := by decide +kernel
  have hstart : h.cache.lookup .start = .ok found := by decide +kernel
  have hturned : h.cache.lookup (Position.start.rotate ⟨true, true, false⟩) = .ok found := by
    decide +kernel
  obtain ⟨hmoves, -, himage, -⟩ :=
    lookup_respects_orientation_and_side h hvalid .start ⟨true, true, false⟩
  obtain ⟨-, -, -, hside⟩ := lookup_respects_orientation_and_side h hvalid blocked .identity
  exact ⟨h, blocked, found, hvalid, hblocked, hstart, (hmoves found hstart).2, by decide +kernel,
    by decide +kernel, (himage found found hstart hturned).1, by decide +kernel,
    (hside hblocked).2⟩

end Cache
end OthelloBook
