import Mathlib.Data.List.Infix
import Mathlib.Tactic.MkIffOfInductiveProp
import OthelloBook.Proofs.Engine.Columns
import OthelloBook.Proofs.Text.Words

/-!
# Rows are read by their columns

A row has its first two columns before a fixed place and its moves from there on. What else stands
before that place does not matter, unless it makes the line one of those without a result. Of the texts
that do so, only the files above a board, which end in `H`, can reach into the moves.
-/
namespace OthelloBook.OutputLine

open Text

variable {cs part : List Char} {words : List (List Char)} {ms : List Move}

section Marks

variable {header body : List Char}

theorem contains_iff : contains part cs = true ↔ part <:+: cs := by
  induction cs with
  | nil => simp [contains]
  | cons c cs ih =>
    rw [contains, Bool.or_eq_true, List.isPrefixOf_iff_prefix, ih, List.infix_cons_iff]

/-- What stands before the moves of a row, and makes the line none of those without a result. -/
@[mk_iff]
structure IsRowHeader (header : List Char) : Prop where
  length_eq : header.length = movesColumn
  ascii : ∀ c ∈ header, c.toNat < 128
  space_last : header.getLast? = some ' '
  no_border : ¬borderText <:+: header
  no_heading : ∀ heading ∈ headings, ¬heading <:+: header
  no_board : isBoardRow header = false

instance (header : List Char) : Decidable (IsRowHeader header) :=
  have : Decidable (∀ c ∈ header, c.toNat < 128) := List.decidableBAll _ _
  decidable_of_iff' _ (isRowHeader_iff header)

/-- The files above a drawn board stand across the end of a header and the first move. -/
def JoinsFiles (header body : List Char) : Prop :=
  "A B C D E F G ".toList <:+ header ∧ body.head? = some 'H'

instance (header body : List Char) : Decidable (JoinsFiles header body) :=
  inferInstanceAs (Decidable (_ ∧ _))

/-- A text across the end of a header has a space there. -/
theorem infix_append_cases (hlast : header.getLast? = some ' ') (h : part <:+: header ++ body) :
    part <:+: header ∨ part <:+: body ∨
      ∃ p q, part = p ++ ' ' :: q ∧ p ++ [' '] <:+ header ∧ q <+: body := by
  rcases List.infix_append_iff.1 h with h | h | ⟨r, q, rfl, hr, hq⟩
  · exact .inl h
  · exact .inr (.inl h)
  · obtain ⟨start, rfl⟩ := List.getLast?_eq_some_iff.1 hlast
    obtain rfl | ⟨p, rfl, -⟩ := List.suffix_concat_iff.1 hr
    · exact .inr (.inl hq.isInfix)
    · exact .inr (.inr ⟨p, q, by simp, hr, hq⟩)

/-- A text is inside of a header if it has a character after each of its spaces that no move has. -/
theorem infix_header {c : Char} (hlast : header.getLast? = some ' ') (hbody : c ∉ body)
    (hc : c ∈ part) (hafter : ∀ t ∈ part.tails, t.head? = some ' ' → c ∈ t.tail)
    (h : part <:+: header ++ body) : part <:+: header := by
  rcases infix_append_cases hlast h with h | h | ⟨p, q, rfl, -, hq⟩
  · exact h
  · exact absurd (h.subset hc) hbody
  · have hmem : c ∈ q := hafter (' ' :: q) ((List.mem_tails _ _).2 (List.suffix_append _ _)) rfl
    exact absurd (hq.subset hmem) hbody

theorem not_mem_body (hbody : HasWords body words) (hwords : List.Forall₂ Move.Spelled ms words)
    {c : Char} (hblank : isBlank c = false) (hname : c.toLower ∉ nameChars) : c ∉ body := by
  intro hc
  rcases hbody.mem_cases hc with h | ⟨w, hw, h⟩
  · rw [hblank] at h
    cases h
  · obtain ⟨m, hm⟩ := exists_spelled hwords hw
    exact hname (toLower_mem_nameChars hm h)

/-- No move is a single character. -/
theorem not_infix_single (hbody : HasWords body words) (hwords : List.Forall₂ Move.Spelled ms words)
    {c : Char} (hblank : isBlank c = false) : ¬[' ', c, ' '] <:+: ' ' :: body := by
  rintro ⟨front, rest, h⟩
  have hsingle : wordsOf [c] = [[c]] := wordsOf_word (by simp) (by simpa using hblank)
  have hmem : [c] ∈ words := by
    rw [← hbody.wordsOf_eq, ← wordsOf_cons_blank (b := ' ') rfl body, ← h]
    have hsplit : front ++ [' ', c, ' '] ++ rest = front ++ ' ' :: ([c] ++ ' ' :: rest) := by simp
    rw [hsplit, wordsOf_append_cons rfl, wordsOf_append_cons rfl, hsingle]
    simp
  obtain ⟨m, hm⟩ := exists_spelled hwords hmem
  have hlength := length_of_spelled hm
  cases hlength

/-- The files above a board stand in a row within its header, or across the end of it. -/
theorem infix_header_or_joinsFiles (hlast : header.getLast? = some ' ') (hbody : HasWords body words)
    (hwords : List.Forall₂ Move.Spelled ms words)
    (h : "A B C D E F G H".toList <:+: header ++ body) :
    "A B C D E F G H".toList <:+: header ∨ JoinsFiles header body := by
  have hno : ∀ c ∈ "BCDEFG".toList, ¬[' ', c, ' '] <:+: ' ' :: body := by
    intro c hc
    have hblank : "BCDEFG".toList.all fun c => !isBlank c := by decide
    exact not_infix_single hbody hwords (by simpa using List.all_eq_true.1 hblank c hc)
  rcases infix_append_cases hlast h with h | h | ⟨p, q, hpart, hp, hq⟩
  · exact .inl h
  · have hstands : [' ', 'B', ' '] <:+: "A B C D E F G H".toList := by decide
    exact absurd ((hstands.trans h).trans (List.infix_cons (List.infix_refl _)))
      (hno 'B' (by decide))
  · have htails : ∀ t ∈ "A B C D E F G H".toList.tails, t.head? = some ' ' →
        t = [' ', 'H'] ∨ "BCDEFG".toList.any fun c => [' ', c, ' '] <+: t := by decide +kernel
    have htail : ' ' :: q ∈ "A B C D E F G H".toList.tails := by
      rw [List.mem_tails, hpart]
      exact List.suffix_append _ _
    have hqbody : ' ' :: q <+: ' ' :: body := (List.prefix_cons_inj _).2 hq
    -- A space is before the last file, or before another one that stands alone and so is no move.
    rcases htails _ htail rfl with heq | hany
    · obtain rfl : q = ['H'] := List.cons_injective heq
      have hfiles : "A B C D E F G H".toList = "A B C D E F G".toList ++ [' ', 'H'] := rfl
      obtain rfl : "A B C D E F G".toList = p := List.append_cancel_right (hfiles.symm.trans hpart)
      obtain ⟨rest, rfl⟩ := hq
      exact .inr ⟨hp, rfl⟩
    · obtain ⟨c, hc, halone⟩ := List.any_eq_true.1 hany
      exact absurd ((of_decide_eq_true halone).trans hqbody).isInfix (hno c hc)

end Marks

section Lines

variable {header body : List Char}

/-- Three characters tell a row of a board. -/
theorem isBoardRow_cons (c d e : Char) (cs ds : List Char) :
    isBoardRow (c :: d :: e :: cs) = isBoardRow (c :: d :: e :: ds) := by
  by_cases hd : d = ' '
  · subst hd
    rfl
  · simp [isBoardRow, hd]

theorem isBoardRow_of_isPrefix (hheader : IsRowHeader header) (h : cs <+: header ++ body) :
    isBoardRow cs = false := by
  by_contra htrue
  rw [Bool.not_eq_false] at htrue
  have hlength := hheader.length_eq
  have hno := hheader.no_board
  rcases header with _ | ⟨a, _ | ⟨b, _ | ⟨c, header⟩⟩⟩
  case cons.cons.cons =>
    rcases cs with _ | ⟨a', _ | ⟨b', _ | ⟨c', cs⟩⟩⟩
    case cons.cons.cons =>
      simp only [List.cons_append, List.cons_prefix_cons] at h
      obtain ⟨rfl, rfl, rfl, -⟩ := h
      rw [isBoardRow_cons a' b' c' header cs, htrue] at hno
      cases hno
    all_goals simp [isBoardRow] at htrue
  all_goals cases hlength

/-- Each character before the moves is a byte. -/
theorem dropBytes_append (hascii : ∀ c ∈ header, c.toNat < 128) (n : ℕ) (cs : List Char) :
    dropBytes (header.length + n) (header ++ cs) = dropBytes n cs := by
  induction header with
  | nil => simp
  | cons c header ih =>
    obtain ⟨hc, hascii⟩ := List.forall_mem_cons.1 hascii
    have hsize : c.utf8Size = 1 := Char.utf8Size_eq_one_iff.2 (Nat.le_of_lt_succ hc)
    have hsub : header.length + 1 + n - 1 = header.length + n := by omega
    rw [List.length_cons, List.cons_append, dropBytes, if_neg (by omega), hsize, if_pos (by omega), hsub,
      ih hascii]

theorem dropBytes_zero (cs : List Char) : dropBytes 0 cs = cs := by
  cases cs <;> rfl

/-- The moves are the words from their column on. -/
theorem wordsOf_dropBytes (hheader : IsRowHeader header) (hbody : HasWords body words) :
    wordsOf (dropBytes movesColumn (dropBlankEnd (header ++ body))) = words := by
  by_cases hblank : ∀ c ∈ body, isBlank c = true
  · -- Without moves the line ends inside of its header.
    obtain ⟨ds, hds⟩ := dropBlankEnd_isPrefix header
    have hascii : ∀ c ∈ dropBlankEnd header, c.toNat < 128 := fun c hc =>
      hheader.ascii c ((dropBlankEnd_isPrefix header).subset hc)
    have hcolumn : movesColumn = (dropBlankEnd header).length + ds.length := by
      rw [← hheader.length_eq, ← List.length_append, hds]
    have hnone := dropBytes_append hascii ds.length []
    rw [List.append_nil] at hnone
    rw [dropBlankEnd_append_blanks hblank, hcolumn, hnone, ← hbody.wordsOf_eq,
      (HasWords.blanks hblank).wordsOf_eq]
    rfl
  · have hdrop := dropBytes_append hheader.ascii 0 (dropBlankEnd body)
    rw [Nat.add_zero, dropBytes_zero, hheader.length_eq] at hdrop
    rw [dropBlankEnd_append_of_not_blank hblank, hdrop, wordsOf_dropBlankEnd, hbody.wordsOf_eq]

/-- The text of a row without the blanks at its end is the first part of it. -/
theorem infix_of_contains (h : contains part (dropBlankEnd cs) = true) : part <:+: cs :=
  (contains_iff.1 h).trans (dropBlankEnd_isPrefix cs).isInfix

theorem contains_borderText (hheader : IsRowHeader header) (hbody : HasWords body words)
    (hwords : List.Forall₂ Move.Spelled ms words) :
    contains borderText (dropBlankEnd (header ++ body)) = false := by
  rw [Bool.eq_false_iff]
  intro h
  have hno : '-' ∉ body := not_mem_body hbody hwords rfl (by decide)
  exact hheader.no_border
    (infix_header hheader.space_last hno (by decide) (by decide) (infix_of_contains h))

theorem any_headings (hheader : IsRowHeader header) (hbody : HasWords body words)
    (hwords : List.Forall₂ Move.Spelled ms words) :
    headings.any (contains · (dropBlankEnd (header ++ body))) = true ↔ JoinsFiles header body := by
  rw [List.any_eq_true]
  constructor
  · rintro ⟨heading, hmem, h⟩
    replace h := infix_of_contains h
    have hno := hheader.no_heading heading hmem
    simp only [headings, List.mem_cons, List.not_mem_nil, or_false] at hmem
    rcases hmem with rfl | rfl | rfl
    case inl =>
      have ht : 't' ∉ body := not_mem_body hbody hwords rfl (by decide)
      exact absurd (infix_header hheader.space_last ht (by decide) (by decide) h) hno
    case inr.inl =>
      have hsharp : '#' ∉ body := not_mem_body hbody hwords rfl (by decide)
      exact absurd (infix_header hheader.space_last hsharp (by decide) (by decide) h) hno
    case inr.inr =>
      exact (infix_header_or_joinsFiles hheader.space_last hbody hwords h).resolve_left hno
  · rintro ⟨⟨front, rfl⟩, hfirst⟩
    refine ⟨"A B C D E F G H".toList, by simp [headings], contains_iff.2 ?_⟩
    obtain ⟨rest, rfl⟩ : ∃ rest, body = 'H' :: rest := List.head?_eq_some_iff.1 hfirst
    have hblank : ¬∀ c ∈ 'H' :: rest, isBlank c = true := fun h =>
      absurd (h 'H' List.mem_cons_self) (by decide)
    rw [dropBlankEnd_append_of_not_blank hblank, dropBlankEnd_cons rfl]
    exact ⟨front, dropBlankEnd rest, by simp⟩

theorem wordsOf_line (hlast : header.getLast? = some ' ') (body : List Char) :
    wordsOf (dropBlankEnd (header ++ body)) = wordsOf header ++ wordsOf body := by
  obtain ⟨start, rfl⟩ := List.getLast?_eq_some_iff.1 hlast
  rw [wordsOf_dropBlankEnd, List.append_assoc, List.singleton_append, wordsOf_append_cons rfl,
    wordsOf_append_cons rfl, wordsOf_nil, List.append_nil]

end Lines

/-- A row has its first two columns in its header, and its moves after that. -/
structure IsRow (first second : List Char) (header body : String) (ms : List Move) : Prop where
  isRowHeader : IsRowHeader header.toList
  columns : ∃ further, HasWords header.toList (first :: second :: further)
  moves : ∃ words, HasWords body.toList words ∧ List.Forall₂ Move.Spelled ms words

section Rows

variable {first second : List Char} {header body : String}

theorem IsRow.readRow_eq (h : IsRow first second header body ms) :
    readRow (dropBlankEnd (header.toList ++ body.toList)) =
      if isBound second then .ok .ignored
      else (readColumns first second).map fun (depth, confidence, score) =>
        .row ⟨depth, confidence, score, ms⟩ := by
  obtain ⟨hheader, ⟨further, hcolumns⟩, words, hbody, hwords⟩ := h
  have hline := wordsOf_line hheader.space_last body.toList
  rw [hcolumns.wordsOf_eq, List.cons_append, List.cons_append] at hline
  rw [readRow, hline, wordsOf_dropBytes hheader hbody, readMoves_of_spelled hwords]
  dsimp only
  cases isBound second with
  | true => rfl
  | false => cases readColumns first second <;> rfl

theorem IsRow.line_ne_nil (h : IsRow first second header body ms) :
    dropBlankEnd (header.toList ++ body.toList) ≠ [] := by
  intro hnil
  obtain ⟨further, hcolumns⟩ := h.columns
  have hline := wordsOf_line h.isRowHeader.space_last body.toList
  rw [hnil, hcolumns.wordsOf_eq] at hline
  cases hline

/-- A row is neither a border nor a drawn board, and it is a heading only together with its first
move. -/
theorem IsRow.read_eq (h : IsRow first second header body ms) :
    read (header ++ body) =
      if JoinsFiles header.toList body.toList then .ok .ignored
      else (readRow (dropBlankEnd (header.toList ++ body.toList))).mapError
        (.output (String.ofList (dropBlankEnd (header.toList ++ body.toList)))) := by
  obtain ⟨words, hbody, hwords⟩ := h.moves
  have hboard : isBoardRow (dropBlankEnd (header.toList ++ body.toList)) = false :=
    isBoardRow_of_isPrefix h.isRowHeader (dropBlankEnd_isPrefix _)
  simp only [read, String.toList_append, List.isEmpty_iff, h.line_ne_nil, if_false, hboard,
    Bool.or_false, contains_borderText h.isRowHeader hbody hwords,
    any_headings h.isRowHeader hbody hwords, Bool.false_eq_true]

theorem read_append_blanks (line : String) {blanks : String}
    (h : ∀ c ∈ blanks.toList, isBlank c = true) : read (line ++ blanks) = read line := by
  rw [read, read, String.toList_append, dropBlankEnd_append_blanks h]

/-- A row is read as its depth, its confidence, its score and its moves, and a row whose score is a
bound as nothing. A row with the files of a board across the end of its header is not told from the
line above a drawn board. Blanks after a line are of no matter. -/
theorem rows_are_read_by_their_columns :
    (∀ (header body : String) (ms : List Move) (depth : ℕ) (confidence : Option ℕ) (score : ℤ),
      depth ≤ 255 → (∀ n ∈ confidence, n ≤ 255) → -128 ≤ score → score ≤ 127 →
        (IsRow (depthColumn depth confidence) (toString score).toList header body ms →
          read (header ++ body) = .ok
            (if JoinsFiles header.toList body.toList then .ignored
            else .row ⟨depth, confidence.getD 100, score, ms⟩)) ∧
        ∀ mark ∈ ['<', '>'],
          IsRow (depthColumn depth confidence) (mark :: (toString score).toList) header body ms →
          read (header ++ body) = .ok .ignored) ∧
    ∀ line blanks : String, (∀ c ∈ blanks.toList, isBlank c = true) →
      read (line ++ blanks) = read line := by
  refine ⟨fun header body ms depth confidence score hdepth hconfidence hlow hhigh =>
    ⟨fun hrow => ?_, fun mark hmark hrow => ?_⟩, fun line blanks h => read_append_blanks line h⟩
  · have hcolumns := readColumns_eq hdepth hconfidence hlow hhigh
    rw [hrow.read_eq, hrow.readRow_eq, isBound_toString, hcolumns]
    by_cases hfiles : JoinsFiles header.toList body.toList <;>
      simp [hfiles, Except.map, Except.mapError]
  · have hbound : isBound (mark :: (toString score).toList) = true := by
      simpa [isBound] using hmark
    rw [hrow.read_eq, hrow.readRow_eq, if_pos hbound]
    exact ite_self _

theorem rows_are_read_by_their_columns_forced_pass :
    read ("19@73%  -60        0:00.003         24589    8196333 " ++ "e8 H5 ps" ++ "\n") =
        .ok (.row ⟨19, 73, -60, [.play 60, .play 39, .pass]⟩) ∧
      read ("19@73% <-60        0:00.003         24589    8196333 " ++ "e8 H5 ps") =
        .ok .ignored := by
  obtain ⟨hrows, hblanks⟩ := rows_are_read_by_their_columns
  have hmoves : ∃ words, HasWords "e8 H5 ps".toList words ∧
      List.Forall₂ Move.Spelled [.play 60, .play 39, .pass] words :=
    ⟨["e8".toList, "H5".toList, "ps".toList], hasWords_iff.2 (by decide), by decide +kernel⟩
  have hrow : IsRow (depthColumn 19 (some 73)) (toString (-60 : ℤ)).toList
      "19@73%  -60        0:00.003         24589    8196333 " "e8 H5 ps"
      [.play 60, .play 39, .pass] :=
    ⟨by decide +kernel, ⟨["0:00.003".toList, "24589".toList, "8196333".toList],
      hasWords_iff.2 (by decide +kernel)⟩, hmoves⟩
  have hbound : IsRow (depthColumn 19 (some 73)) ('<' :: (toString (-60 : ℤ)).toList)
      "19@73% <-60        0:00.003         24589    8196333 " "e8 H5 ps"
      [.play 60, .play 39, .pass] :=
    ⟨by decide +kernel, ⟨["0:00.003".toList, "24589".toList, "8196333".toList],
      hasWords_iff.2 (by decide +kernel)⟩, hmoves⟩
  have hread (header : String) := hrows header "e8 H5 ps" [.play 60, .play 39, .pass] 19 (some 73)
    (-60) (by decide) (by simp) (by decide) (by decide)
  rw [hblanks _ "\n" (by simp [isBlank]), (hread _).1 hrow]
  exact ⟨rfl, (hread _).2 '<' (by decide) hbound⟩

/-- The first move is taken for the last of the files. -/
theorem row_across_files_is_ignored :
    IsRow (depthColumn 9 (some 73)) (toString (-51 : ℤ)).toList
        " 9@73%  -51                            A B C D E F G " "H5 g8" [.play 39, .play 62] ∧
      read (" 9@73%  -51                            A B C D E F G " ++ "H5 g8") = .ok .ignored := by
  refine ⟨⟨by decide +kernel, ⟨"ABCDEFG".toList.map fun c => [c], hasWords_iff.2 (by decide +kernel)⟩,
    ["H5".toList, "g8".toList], hasWords_iff.2 (by decide), by decide +kernel⟩, by decide +kernel⟩

end Rows

end OthelloBook.OutputLine
