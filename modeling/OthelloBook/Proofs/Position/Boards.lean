import OthelloBook.Position.Basic
import OthelloBook.Proofs.Board.Captures
import OthelloBook.Proofs.Position.Bytes
import OthelloBook.Proofs.Text.Hexadecimal

/-!
# Boards are read square by square

A board is read as the position whose squares bear the marks of its characters, one after the other
from `a1` on, and there is such a position for any 64 marks. The line for an engine has the same marks
with a slash after each rank but the last, and the side to move at its end.
-/
namespace OthelloBook

open Text

namespace Mask

/-- There is a set with any given squares. -/
theorem exists_contains_eq (f : Square → Bool) : ∃ m : Mask, ∀ s, m.contains s = f s := by
  refine ⟨(Square.all.filter f).foldl (fun m s => m ||| single s) 0, fun s => ?_⟩
  rw [contains_foldl_or, Bool.eq_iff_iff]
  simp [Square.mem_all]

def IsBelow (index : ℕ) (part whole : Mask) : Prop :=
  ∀ s, part.contains s = (decide (s.val < index) && whole.contains s)

variable {part whole : Mask} {s : Square}

theorem isBelow_zero : IsBelow 0 0 whole := fun s => by simp

theorem IsBelow.eq (h : IsBelow 64 part whole) : part = whole :=
  eq_of_contains fun s => by simp [h s]

theorem IsBelow.succ (h : IsBelow s.val part whole) :
    IsBelow (s.val + 1) (if whole.contains s then part ||| single s else part) whole := by
  intro t
  have hlt : t.val < s.val + 1 ↔ t.val < s.val ∨ s = t := by rw [Fin.ext_iff]; omega
  by_cases hst : s = t
  · subst hst
    cases hs : whole.contains s <;> simp [h s, hs]
  · cases hs : whole.contains s <;> simp [h t, hlt, hst]

end Mask

namespace Position

def Mark.spellings : Mark → List Char
  | .own => ['X', 'x', '*']
  | .opposing => ['O', 'o']
  | .free => ['-', '.']

theorem Mark.ofChar?_eq_some_iff {c : Char} {m : Mark} : ofChar? c = some m ↔ c ∈ m.spellings := by
  rw [ofChar?]
  cases m <;> simp only [spellings, List.mem_cons, List.not_mem_nil, or_false] <;> grind

def mark (p : Position) (s : Square) : Mark :=
  if p.own.contains s then .own else if p.opposing.contains s then .opposing else .free

theorem mark_eq_iff {p : Position} {s : Square} {m : Mark} :
    p.mark s = m ↔
      p.own.contains s = decide (m = .own) ∧ p.opposing.contains s = decide (m = .opposing) := by
  rw [mark]
  cases hopposing : p.opposing.contains s with
  | true =>
    have hown := Mask.contains_of_disjoint p.disjoint hopposing
    cases m <;> simp [hown]
  | false => cases p.own.contains s <;> cases m <;> simp

/-- Any marks of the squares are those of a position. -/
theorem exists_mark_eq (f : Square → Mark) : ∃ p : Position, ∀ s, p.mark s = f s := by
  obtain ⟨own, hown⟩ := Mask.exists_contains_eq fun s => decide (f s = .own)
  obtain ⟨opposing, hopposing⟩ := Mask.exists_contains_eq fun s => decide (f s = .opposing)
  have hdisjoint : own &&& opposing = 0 := by
    apply Mask.eq_of_contains
    intro s
    rw [Mask.contains_and, hown, hopposing, Mask.contains_zero]
    cases f s <;> rfl
  exact ⟨⟨own, opposing, hdisjoint⟩, fun s => mark_eq_iff.2 ⟨hown s, hopposing s⟩⟩

variable {p : Position} {own opposing : Mask} {index : ℕ} {cs : List Char}

/-- The marks of a position are read as the position: at each index the sets hold its discs on the
squares before it. -/
theorem readMarks_of_mark (hindex : index ≤ 64) (hown : own.IsBelow index p.own)
    (hopposing : opposing.IsBelow index p.opposing)
    (hcs : cs.map Mark.ofChar? = (Square.all.drop index).map fun s => some (p.mark s)) :
    readMarks index own opposing cs = .ok p := by
  induction cs generalizing index own opposing with
  | nil =>
    obtain rfl : index = 64 := by
      have hnil : Square.all.drop index = [] := List.map_eq_nil_iff.1 hcs.symm
      have hlength : 64 ≤ index := List.drop_eq_nil_iff.1 hnil
      exact le_antisymm hindex hlength
    rw [readMarks, if_neg (by decide), ofMasks_eq_ok_iff]
    exact ⟨hown.eq.symm, hopposing.eq.symm⟩
  | cons c cs ih =>
    rcases hindex.lt_or_eq with hlt | rfl
    · let s : Square := ⟨index, hlt⟩
      have hdrop : Square.all.drop index = s :: Square.all.drop (index + 1) := by
        rw [List.drop_eq_getElem_cons (by simpa [Square.all] using hlt)]
        simp [Square.all, s]
      rw [hdrop, List.map_cons, List.map_cons, List.cons.injEq] at hcs
      obtain ⟨hc, hcs⟩ := hcs
      have hsquare : Square.ofIndex? index = some s := dif_pos hlt
      have hown' := hown.succ (s := s)
      have hopposing' := hopposing.succ (s := s)
      obtain ⟨hs, ht⟩ := mark_eq_iff.1 (rfl : p.mark s = p.mark s)
      rw [hs] at hown'
      rw [ht] at hopposing'
      -- Whatever the mark is, the sets then hold the discs up to this square, as they should.
      rw [readMarks, hsquare, hc]
      generalize p.mark s = m at hown' hopposing' ⊢
      cases m with
      | own => exact ih hlt hown' hopposing' hcs
      | opposing => exact ih hlt hown' hopposing' hcs
      | free => exact ih hlt hown' hopposing' hcs
    · cases hcs

/-- What is read has a mark for each square, and nothing else. -/
theorem exists_mark_of_readMarks (h : readMarks index own opposing cs = .ok p) :
    index + cs.length = 64 ∧ ∀ c ∈ cs, ∃ m, Mark.ofChar? c = some m := by
  induction cs generalizing index own opposing with
  | nil =>
    rw [readMarks] at h
    split at h
    · cases h
    · rename_i hindex
      exact ⟨not_not.1 hindex, by simp⟩
  | cons c cs ih =>
    rw [readMarks] at h
    have hlength : index + (c :: cs).length = index + 1 + cs.length := by
      rw [List.length_cons]
      omega
    rw [hlength, List.forall_mem_cons]
    cases hsquare : Square.ofIndex? index with
    | none => simp [hsquare] at h
    | some s =>
      cases hc : Mark.ofChar? c with
      | none => simp [hsquare, hc] at h
      | some m =>
        rw [hsquare, hc] at h
        have hrest : index + 1 + cs.length = 64 ∧ ∀ c ∈ cs, ∃ m, Mark.ofChar? c = some m := by
          cases m with
          | own => exact ih h
          | opposing => exact ih h
          | free => exact ih h
        exact ⟨hrest.1, ⟨m, rfl⟩, hrest.2⟩

def boardChars (s : String) : List Char := s.toList.filter fun c => !isBlank c

/-- A text shows a position when it has a character for each square that stands for its mark. -/
def Shows (s : String) (p : Position) : Prop :=
  (boardChars s).length = 64 ∧
    ∀ q : Square, ∃ c ∈ (p.mark q).spellings, (boardChars s)[q.val]? = some c

theorem shows_iff {s : String} :
    Shows s p ↔ (boardChars s).map Mark.ofChar? = Square.all.map fun q => some (p.mark q) := by
  constructor
  · rintro ⟨hlength, h⟩
    refine List.ext_getElem (by simpa [Square.all] using hlength) fun i hi hi' => ?_
    have hlt : i < 64 := by simpa [Square.all] using hi'
    obtain ⟨c, hc, hget⟩ := h ⟨i, hlt⟩
    obtain ⟨_, hget⟩ := List.getElem?_eq_some_iff.1 hget
    simp [Square.all, hget, Mark.ofChar?_eq_some_iff.2 hc]
  · intro h
    have hlength : (boardChars s).length = 64 := by
      simpa [Square.all] using congrArg List.length h
    refine ⟨hlength, fun q => ?_⟩
    have hq : q.val < (boardChars s).length := by rw [hlength]; exact q.isLt
    have hget : ((boardChars s).map Mark.ofChar?)[q.val]? = some (some (p.mark q)) := by
      rw [h]
      simp [Square.all]
    rw [List.getElem?_map, List.getElem?_eq_getElem hq, Option.map_some, Option.some.injEq] at hget
    exact ⟨_, Mark.ofChar?_eq_some_iff.1 hget, List.getElem?_eq_getElem hq⟩

theorem ofBoard_eq_ok_of_shows {s : String} (h : Shows s p) : ofBoard s = .ok p :=
  readMarks_of_mark (by decide) Mask.isBelow_zero Mask.isBelow_zero (shows_iff.1 h)

/-- A text of 64 marks shows a position. -/
theorem exists_shows {s : String} (hlength : (boardChars s).length = 64)
    (h : ∀ c ∈ boardChars s, ∃ m, Mark.ofChar? c = some m) : ∃ p, Shows s p := by
  have hmark : ∀ q : Square, ∃ m, ∃ c, (boardChars s)[q.val]? = some c ∧ Mark.ofChar? c = some m := by
    intro q
    have hq : q.val < (boardChars s).length := by rw [hlength]; exact q.isLt
    obtain ⟨m, hm⟩ := h _ (List.getElem_mem hq)
    exact ⟨m, _, List.getElem?_eq_getElem hq, hm⟩
  -- Marks chosen square by square are those of one position, which the text then shows.
  choose f hf using hmark
  obtain ⟨p, hp⟩ := exists_mark_eq f
  refine ⟨p, hlength, fun q => ?_⟩
  obtain ⟨c, hget, hc⟩ := hf q
  exact ⟨c, Mark.ofChar?_eq_some_iff.1 (hp q ▸ hc), hget⟩

theorem exists_mark_of_ofBoard {s : String} (h : ofBoard s = .ok p) :
    (boardChars s).length = 64 ∧ ∀ c ∈ boardChars s, ∃ m, Mark.ofChar? c = some m := by
  obtain ⟨hlength, hmarks⟩ := exists_mark_of_readMarks h
  rw [Nat.zero_add] at hlength
  exact ⟨hlength, hmarks⟩

theorem ofBoard_eq_ok_iff {s : String} : ofBoard s = .ok p ↔ Shows s p := by
  refine ⟨fun h => ?_, ofBoard_eq_ok_of_shows⟩
  obtain ⟨hlength, hmarks⟩ := exists_mark_of_ofBoard h
  obtain ⟨q, hq⟩ := exists_shows hlength hmarks
  have hqp := (ofBoard_eq_ok_of_shows hq).symm.trans h
  rwa [Except.ok.inj hqp] at hq

def markChars : List Char := "Xx*Oo-.".toList

theorem Mark.exists_ofChar?_iff {c : Char} : (∃ m, ofChar? c = some m) ↔ c ∈ markChars := by
  have hspelled (m : Mark) : m.spellings ⊆ markChars := by cases m <;> decide
  have hread : markChars.all fun c => (ofChar? c).isSome := by decide
  constructor
  · rintro ⟨m, hc⟩
    exact hspelled m (ofChar?_eq_some_iff.1 hc)
  · exact fun hc => Option.isSome_iff_exists.1 (List.all_eq_true.1 hread c hc)

theorem exists_ofBoard_eq_ok_iff {s : String} :
    (∃ p, ofBoard s = .ok p) ↔ (boardChars s).length = 64 ∧ ∀ c ∈ boardChars s, c ∈ markChars := by
  simp only [← Mark.exists_ofChar?_iff]
  constructor
  · rintro ⟨p, h⟩
    exact exists_mark_of_ofBoard h
  · rintro ⟨hlength, h⟩
    obtain ⟨p, hp⟩ := exists_shows hlength h
    exact ⟨p, ofBoard_eq_ok_of_shows hp⟩

section Line

theorem squareChar_mem_spellings (p : Position) (s : Square) :
    p.squareChar s ∈ (p.mark s).spellings := by
  rw [squareChar, mark]
  cases p.own.contains s <;> cases p.opposing.contains s <;> decide

theorem squareChar_ne (p : Position) (s : Square) :
    p.squareChar s ≠ '/' ∧ isBlank (p.squareChar s) = false := by
  rw [squareChar]
  cases p.own.contains s <;> cases p.opposing.contains s <;> decide

/-- The ranks one after the other are all squares. -/
theorem flatten_rankChars (p : Position) :
    ((List.finRange 8).map p.rankChars).flatten = Square.all.map p.squareChar := by
  have hall : Square.all = (List.finRange 8).flatMap fun rank =>
      (List.finRange 8).map fun file => Square.ofFileRank file rank := by decide +kernel
  rw [hall, List.map_flatMap, ← List.flatMap_def]
  simp only [List.map_map, Function.comp_def]
  rfl

section Intercalate

variable {α : Type*} [DecidableEq α] {mark : α} {xss : List (List α)}

/-- What is left of joined lists without the marks between them is all of the lists. -/
theorem filter_intercalate (h : ∀ xs ∈ xss, mark ∉ xs) :
    ([mark].intercalate xss).filter (· ≠ mark) = xss.flatten := by
  induction xss with
  | nil => rfl
  | cons xs xss ih =>
    obtain ⟨hxs, hxss⟩ := List.forall_mem_cons.1 h
    have hself : xs.filter (· ≠ mark) = xs :=
      List.filter_eq_self.2 fun x hx => decide_eq_true (ne_of_mem_of_not_mem hx hxs)
    cases xss with
    | nil => simpa using hself
    | cons ys yss =>
      rw [List.intercalate_cons_cons, List.filter_append, List.filter_append, hself, ih hxss]
      simp

/-- Joined lists have a mark between each two of them. -/
theorem count_intercalate (h : ∀ xs ∈ xss, mark ∉ xs) :
    ([mark].intercalate xss).count mark = xss.length - 1 := by
  induction xss with
  | nil => rfl
  | cons xs xss ih =>
    obtain ⟨hxs, hxss⟩ := List.forall_mem_cons.1 h
    cases xss with
    | nil => simpa using List.count_eq_zero.2 hxs
    | cons ys yss =>
      rw [List.intercalate_cons_cons, List.count_append, List.count_append, ih hxss,
        List.count_eq_zero.2 hxs]
      simp [Nat.add_comm]

end Intercalate

theorem slash_not_mem_rankChars (p : Position) :
    ∀ cs ∈ (List.finRange 8).map p.rankChars, '/' ∉ cs := by
  intro cs hcs hslash
  obtain ⟨rank, -, rfl⟩ := List.mem_map.1 hcs
  obtain ⟨file, -, hchar⟩ := List.mem_map.1 hslash
  exact (p.squareChar_ne _).1 hchar

/-- Without the slashes and the side to move the line for an engine has the marks of the squares. -/
theorem filter_setboardChars (p : Position) :
    p.setboardChars.dropLast.filter (· ≠ '/') = Square.all.map p.squareChar := by
  rw [setboardChars, List.dropLast_concat, filter_intercalate p.slash_not_mem_rankChars,
    flatten_rankChars]

theorem count_setboardChars (p : Position) : p.setboardChars.dropLast.count '/' = 7 := by
  rw [setboardChars, List.dropLast_concat, count_intercalate p.slash_not_mem_rankChars]
  rfl

theorem length_setboardChars (p : Position) : p.setboardChars.length = 72 := by
  have hsplit (cs : List Char) : cs.length = cs.count '/' + (cs.filter (· ≠ '/')).length := by
    rw [cs.length_eq_countP_add_countP (· == '/'), ← List.countP_eq_length_filter]
    simp [List.count]
  calc
    p.setboardChars.length = p.setboardChars.dropLast.length + 1 := by simp [setboardChars]
    _ = 7 + (Square.all.map p.squareChar).length + 1 := by
      rw [hsplit, count_setboardChars, filter_setboardChars]
    _ = 72 := by simp [Square.all]

theorem shows_setboardChars (p : Position) :
    Shows (String.ofList (p.setboardChars.dropLast.filter (· ≠ '/'))) p := by
  have hchars : boardChars (String.ofList (Square.all.map p.squareChar)) =
      Square.all.map p.squareChar := by
    rw [boardChars, String.toList_ofList, List.filter_eq_self]
    intro c hc
    obtain ⟨s, -, rfl⟩ := List.mem_map.1 hc
    simp [(p.squareChar_ne s).2]
  rw [filter_setboardChars, Shows, hchars]
  refine ⟨by simp [Square.all], fun q => ⟨_, p.squareChar_mem_spellings q, ?_⟩⟩
  simp [Square.all]

end Line

/-! ## A position is known from each of its forms

A position is written in three ways, as a text, as bytes and as the line for an engine, and each of
them says which position it is. What is read as bytes or as a board is determined as well: there are no
other bytes of a position, and a board is read square by square. -/

/-- A position is read back from its text, from its bytes and, without the slashes and the side to move,
from its line of 72 characters. Only the bytes of a position are read as it, and sixteen bytes are
refused only if their halves have a bit in common. A board is read exactly when it consists of 64 marks
and blanks, as the position that has the marks on its squares, one after the other. -/
theorem encodings_are_lossless :
    (∀ p : Position, parse p.text = .ok p ∧ ofBytes p.bytes = .ok p ∧
      p.setboard.length = 72 ∧ p.setboard.toList.count '/' = 7 ∧
      p.setboard.toList.getLast? = some 'X' ∧
      ofBoard (String.ofList (p.setboard.toList.dropLast.filter (· ≠ '/'))) = .ok p) ∧
    (∀ bs p, ofBytes bs = .ok p ↔ p.bytes = bs) ∧
    (∀ bs, (∃ e, ofBytes bs = .error e) ↔
      bs.length ≠ 16 ∨ ofLittleEndian (bs.take 8) &&& ofLittleEndian (bs.drop 8) ≠ 0) ∧
    ∀ s, ((∃ p, ofBoard s = .ok p) ↔
        (boardChars s).length = 64 ∧ ∀ c ∈ boardChars s, c ∈ markChars) ∧
      ∀ p, ofBoard s = .ok p ↔ Shows s p := by
  refine ⟨fun p => ?_, fun bs p => ofBytes_eq_ok_iff, fun bs => exists_ofBytes_eq_error_iff,
    fun s => ⟨exists_ofBoard_eq_ok_iff, fun p => ofBoard_eq_ok_iff⟩⟩
  have hend : p.setboardChars.getLast? = some 'X' := by simp [setboardChars]
  have hslashes : p.setboardChars.count '/' = 7 := by
    have hline : p.setboardChars = p.setboardChars.dropLast ++ ['X'] := by simp [setboardChars]
    rw [hline, List.count_append, count_setboardChars]
    rfl
  rw [setboard, String.length_ofList, String.toList_ofList]
  exact ⟨p.parse_text, p.ofBytes_bytes, p.length_setboardChars, hslashes, hend,
    ofBoard_eq_ok_iff.2 p.shows_setboardChars⟩

end Position
end OthelloBook
